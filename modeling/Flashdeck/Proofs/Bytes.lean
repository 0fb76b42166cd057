import Flashdeck.Command.Run
import Flashdeck.Proofs.Text.Utf8

/-!
# Scripts given as bytes

A script reaches its cards as a text, as bytes, from a file, or through a command that reads a file
or standard input. Bytes that are a text make the cards of that text on every way; bytes that are
not make no cards on any of them, and the fault is one and the same, at the end of the longest text
that the bytes begin with.

* `readScript_encode`, `exists_readScript_eq_error`: the two ways that reading bytes can end.
* `Settings.cards_of_bytes_agree`: the library and the command line, from the same bytes.
-/

namespace Flashdeck

open Text

/-! ## Reading bytes -/

theorem readScript_encode (script : List Char) :
    readScript (Utf8.encode script) = .ok script := by
  rw [readScript, Utf8.decode_eq_ok_iff.2 rfl]
  rfl

/-- Bytes that are no text have a fault, behind the longest text that they begin with. -/
theorem exists_readScript_eq_error {bytes : List UInt8}
    (noText : ∀ script, bytes ≠ Utf8.encode script) :
    ∃ fault, readScript bytes = .error (.notUtf8 fault) ∧ Utf8.LongestText bytes fault.index := by
  cases decoded : Utf8.decode bytes with
  | ok script => exact (noText script (Utf8.decode_eq_ok_iff.1 decoded)).elim
  | error fault =>
    refine ⟨fault, ?_, Utf8.longestText_of_decode_eq_error decoded⟩
    rw [readScript, decoded]
    rfl

/-! ## Where a command reads -/

namespace Command

/-- The bytes that a source gives. -/
def Source.bytes (source : Source) (standardInput : List UInt8)
    (readFile : String → Except FileFault (List UInt8)) : Except FileFault (List UInt8) :=
  match source with
  | .standardInput => .ok standardInput
  | .file path => readFile path

/-- A command reads the bytes of its source as the library reads bytes. -/
theorem Invocation.script_eq_readScript {invocation : Invocation} {standardInput bytes : List UInt8}
    {readFile : String → Except FileFault (List UInt8)}
    (given : invocation.source.bytes standardInput readFile = .ok bytes) :
    invocation.script standardInput readFile = readScript bytes := by
  unfold Source.bytes at given
  unfold script
  cases source : invocation.source with
  | standardInput =>
    rw [source] at given
    cases given
    rfl
  | file path =>
    rw [source] at given
    simp only at given ⊢
    rw [given]
    rfl

section Run

variable {invocation : Invocation} {lookup : String → Option String} {standardInput : List UInt8}
  {readFile : String → Except FileFault (List UInt8)} {settings : Settings}
  (loaded : invocation.settings lookup = .ok settings)

include loaded

/-- A run with settings and a script does what its action makes of them. -/
theorem Invocation.run_eq_perform {script : List Char}
    (read : invocation.script standardInput readFile = .ok script) :
    invocation.run lookup standardInput readFile =
      invocation.action.perform settings script := by
  simp only [run, loaded, read]

theorem Invocation.run_eq_failure {fault : Fault}
    (read : invocation.script standardInput readFile = .error fault) :
    invocation.run lookup standardInput readFile = .failure fault := by
  simp only [run, loaded, read]

end Run

end Command

/-! ## The ways agree -/

namespace Settings

theorem cardsOfBytes_encode (settings : Settings) (script : List Char) :
    settings.cardsOfBytes (Utf8.encode script) = .ok (settings.cards script) := by
  rw [cardsOfBytes, readScript_encode]
  rfl

/-- **Bytes make the cards of their text, or none.** If bytes are a text, then the library makes the
cards of that text of them, given as they are or as a file, and a command that compiles without a
layout prints these cards. If they are not, then each way ends in the same fault: it stands behind
the longest text that the bytes begin with, and the command prints its message and nothing else. A
number in a form that is too long for it, a surrogate, and a number above all characters are where
a text ends. -/
theorem cards_of_bytes_agree (settings : Settings) (bytes : List UInt8) :
    (∀ script, bytes = Utf8.encode script →
      settings.cardsOfBytes bytes = .ok (settings.cards script) ∧
      (∀ path, settings.cardsOfFile path (.ok bytes) = .ok (settings.cards script)) ∧
      ∀ (invocation : Command.Invocation) (lookup : String → Option String)
        (standardInput : List UInt8) (readFile : String → Except FileFault (List UInt8))
        (pretty : Bool), invocation.action = .compile false pretty →
        invocation.settings lookup = .ok settings →
        invocation.source.bytes standardInput readFile = .ok bytes →
        invocation.run lookup standardInput readFile =
          { code := 0
            output := String.ofList ((if pretty then Json.Spacing.indented
              else Json.Spacing.compact).writeList
                ((settings.cards script).map fun card => card.fields.entries)) ++ "\n"
            errors := "" }) ∧
    ((∀ script, bytes ≠ Utf8.encode script) → ∃ fault,
      Utf8.LongestText bytes fault.index ∧
      settings.cardsOfBytes bytes = .error (.notUtf8 fault) ∧
      (∀ path, settings.cardsOfFile path (.ok bytes) = .error (.notUtf8 fault)) ∧
      ∀ (invocation : Command.Invocation) (lookup : String → Option String)
        (standardInput : List UInt8) (readFile : String → Except FileFault (List UInt8))
        (pretty : Bool), invocation.action = .compile false pretty →
        invocation.settings lookup = .ok settings →
        invocation.source.bytes standardInput readFile = .ok bytes →
        invocation.run lookup standardInput readFile =
          { code := 1
            output := ""
            errors := "error: " ++ (Fault.notUtf8 fault).message ++ "\n" }) ∧
    ∀ (before : List Char) (width : Utf8.Width) (n : Nat) (rest : List UInt8),
      n < width.limit → width.Misuses n →
      bytes = Utf8.encode before ++ width.lead n :: (width.others n ++ rest) →
      settings.cardsOfBytes bytes = .error (.notUtf8 ⟨Utf8.size before, .invalid 1⟩) := by
  refine ⟨?text, ?fault, ?misuse⟩
  case text =>
    intro script text
    have read : readScript bytes = .ok script := by rw [text, readScript_encode]
    have cards : settings.cardsOfBytes bytes = .ok (settings.cards script) := by
      rw [text, cardsOfBytes_encode]
    refine ⟨cards, fun path => cards, ?_⟩
    intro invocation lookup standardInput readFile pretty compile loaded given
    rw [← Command.Invocation.script_eq_readScript given] at read
    rw [Command.Invocation.run_eq_perform loaded read, compile]
    rfl
  case fault =>
    intro noText
    obtain ⟨fault, read, longest⟩ := exists_readScript_eq_error noText
    have cards : settings.cardsOfBytes bytes = .error (.notUtf8 fault) := by
      rw [cardsOfBytes, read]
      rfl
    refine ⟨fault, longest, cards, fun path => cards, ?_⟩
    intro invocation lookup standardInput readFile pretty compile loaded given
    rw [← Command.Invocation.script_eq_readScript given] at read
    rw [Command.Invocation.run_eq_failure loaded read]
    rfl
  case misuse =>
    intro before width n rest below misuse split
    rw [cardsOfBytes, readScript, split, Utf8.decode_form below misuse]
    rfl

end Settings

end Flashdeck
