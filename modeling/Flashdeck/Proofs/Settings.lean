import Flashdeck.Settings
import Flashdeck.Proofs.Number.Marked

/-!
# Settings from variables

Seven variables give the settings, each of them one setting. Which setting that is depends on no
other variable: it is what the text of the variable means, or the default if the variable is not
set. Only a fault is shared, as one outcome has room for one fault: it is that of the first variable
with a text that means nothing.

* `Variable.Means`: what the text of a variable means, said by the grammar of numbers.
* `Variable.read_eq_ok_iff`, `Variable.read_eq_error_iff`: one variable, read by itself.
* `Loads`: reading variables one after another, up to the first fault.
* `load_variablewise`: the settings, variable by variable, and the fault.
-/

namespace Flashdeck.Settings

open Script Number

/-! ## Variables -/

/-- What a variable sets. -/
def Variable.Setting : Variable → Type
  | .blockMode => BlockMode
  | .escapes => EscapePolicy
  | .columns => Nat
  | .startX | .startY | .spacingX | .spacingY => Float

/-- What the settings hold for a variable. -/
def value (settings : Settings) : (key : Variable) → key.Setting
  | .blockMode => settings.blockMode
  | .escapes => settings.escapes
  | .columns => settings.grid.columns
  | .startX => settings.grid.startX
  | .startY => settings.grid.startY
  | .spacingX => settings.grid.spacingX
  | .spacingY => settings.grid.spacingY

namespace Variable

/-- The reader of a variable. -/
def read : (key : Variable) → Option String → Except ValueFault key.Setting
  | .blockMode => readBlockMode
  | .escapes => readEscapes
  | .columns => readColumns
  | .startX => readCoordinate .startX default.grid.startX
  | .startY => readCoordinate .startY default.grid.startY
  | .spacingX => readCoordinate .spacingX default.grid.spacingX
  | .spacingY => readCoordinate .spacingY default.grid.spacingY

/-- The whole text is the name of a rule for finding blocks. -/
inductive NamesBlockMode : String → BlockMode → Prop
  | compat : NamesBlockMode "compat" .compat
  | balanced : NamesBlockMode "balanced" .balanced

/-- The whole text is the name of an escape policy. -/
inductive NamesEscapes : String → EscapePolicy → Prop
  | decode : NamesEscapes "decode" .decode
  | raw : NamesEscapes "raw" .raw

/-- The text, white space around it apart, is a number of columns: digits with an optional plus
sign, of a number that is not zero and has 64 bits. -/
def DenotesColumns (text : String) (n : Nat) : Prop :=
  IsNumber 10 (dropPlus (trimmed text)) n ∧ n < 2 ^ 64 ∧ 1 ≤ n

/-- The text, white space around it apart, is a number. -/
def DenotesCoordinate (text : String) (x : Float) : Prop :=
  IsDouble (trimmed text) x

/-- What the text of a variable means. -/
def Means : (key : Variable) → String → key.Setting → Prop
  | .blockMode => NamesBlockMode
  | .escapes => NamesEscapes
  | .columns => DenotesColumns
  | .startX | .startY | .spacingX | .spacingY => DenotesCoordinate

/-- The setting that a variable gives, whether it is set to a text or not. -/
def Gives (key : Variable) : Option String → key.Setting → Prop
  | none, setting => setting = default.value key
  | some text, setting => key.Means text setting

/-- The fault of a text that means nothing. -/
def HasFault (key : Variable) (text : String) (fault : ValueFault) : Prop :=
  match key with
  | .blockMode => (∀ mode, ¬ NamesBlockMode text mode) ∧ fault = .unknownBlockMode text
  | .escapes => (∀ policy, ¬ NamesEscapes text policy) ∧ fault = .unknownEscapePolicy text
  | .columns =>
    (∀ n, IsNumber 10 (dropPlus (trimmed text)) n → 2 ^ 64 ≤ n) ∧
        fault = .malformed .columns text ∨
      IsNumber 10 (dropPlus (trimmed text)) 0 ∧ fault = .noColumns
  | .startX | .startY | .spacingX | .spacingY =>
    (∀ x, ¬ DenotesCoordinate text x) ∧ fault = .malformed key text

/-! ## One variable -/

section Read

variable {text : String} {fault : ValueFault}

theorem ofName?_eq_some_iff_namesBlockMode {mode : BlockMode} :
    BlockMode.ofName? text = some mode ↔ NamesBlockMode text mode := by
  rw [BlockMode.ofName?_eq_some_iff]
  apply Iff.intro
  · rintro rfl
    cases mode with
    | compat => exact .compat
    | balanced => exact .balanced
  · intro names
    cases names <;> rfl

theorem ofName?_eq_some_iff_namesEscapes {policy : EscapePolicy} :
    EscapePolicy.ofName? text = some policy ↔ NamesEscapes text policy := by
  rw [EscapePolicy.ofName?_eq_some_iff]
  apply Iff.intro
  · rintro rfl
    cases policy with
    | decode => exact .decode
    | raw => exact .raw
  · intro names
    cases names <;> rfl

theorem readBlockMode_eq_ok_iff {mode : BlockMode} :
    readBlockMode (some text) = .ok mode ↔ NamesBlockMode text mode := by
  rw [← ofName?_eq_some_iff_namesBlockMode, readBlockMode]
  cases BlockMode.ofName? text <;> simp

theorem readBlockMode_eq_error_iff :
    readBlockMode (some text) = .error fault ↔
      (∀ mode, ¬ NamesBlockMode text mode) ∧ fault = .unknownBlockMode text := by
  simp only [← ofName?_eq_some_iff_namesBlockMode, ← Option.eq_none_iff_forall_ne_some,
    readBlockMode]
  cases BlockMode.ofName? text <;> simp [eq_comm]

theorem readEscapes_eq_ok_iff {policy : EscapePolicy} :
    readEscapes (some text) = .ok policy ↔ NamesEscapes text policy := by
  rw [← ofName?_eq_some_iff_namesEscapes, readEscapes]
  cases EscapePolicy.ofName? text <;> simp

theorem readEscapes_eq_error_iff :
    readEscapes (some text) = .error fault ↔
      (∀ policy, ¬ NamesEscapes text policy) ∧ fault = .unknownEscapePolicy text := by
  simp only [← ofName?_eq_some_iff_namesEscapes, ← Option.eq_none_iff_forall_ne_some, readEscapes]
  cases EscapePolicy.ofName? text <;> simp [eq_comm]

theorem readColumns_eq_ok_iff {n : Nat} :
    readColumns (some text) = .ok n ↔ DenotesColumns text n := by
  rw [DenotesColumns, ← and_assoc, ← word?_eq_some_iff, readColumns]
  cases word? 10 (trimmed text) with
  | none => simp
  | some columns =>
    cases columns with
    | zero => simp; omega
    | succ columns => simp; omega

/-- The two faults of a number of columns: there is no word, or it is zero. -/
theorem readColumns_eq_error_iff :
    readColumns (some text) = .error fault ↔
      (∀ n, IsNumber 10 (dropPlus (trimmed text)) n → 2 ^ 64 ≤ n) ∧
          fault = .malformed .columns text ∨
        IsNumber 10 (dropPlus (trimmed text)) 0 ∧ fault = .noColumns := by
  have noWord : (∀ n, IsNumber 10 (dropPlus (trimmed text)) n → 2 ^ 64 ≤ n) ↔
      word? 10 (trimmed text) = none := by
    simp only [Option.eq_none_iff_forall_ne_some, Ne, word?_eq_some_iff, not_and, Nat.not_lt]
  have zero : IsNumber 10 (dropPlus (trimmed text)) 0 ↔ word? 10 (trimmed text) = some 0 := by
    rw [word?_eq_some_iff, and_iff_left (Nat.two_pow_pos 64)]
  rw [noWord, zero, readColumns]
  cases word? 10 (trimmed text) with
  | none => simp [eq_comm]
  | some columns =>
    cases columns with
    | zero => simp [eq_comm]
    | succ columns => simp

variable {key : Variable} (fallback : Float)

theorem readCoordinate_eq_ok_iff {x : Float} :
    readCoordinate key fallback (some text) = .ok x ↔ DenotesCoordinate text x := by
  rw [DenotesCoordinate, ← ofText?_eq_some_iff, readCoordinate]
  cases ofText? (trimmed text) <;> simp

theorem readCoordinate_eq_error_iff :
    readCoordinate key fallback (some text) = .error fault ↔
      (∀ x, ¬ DenotesCoordinate text x) ∧ fault = .malformed key text := by
  simp only [DenotesCoordinate, ← ofText?_eq_some_iff, ← Option.eq_none_iff_forall_ne_some,
    readCoordinate]
  cases ofText? (trimmed text) <;> simp [eq_comm]

end Read

section Variable

variable {key : Variable} {text : String} {fault : ValueFault}

theorem read_none (key : Variable) : key.read none = .ok (default.value key) := by
  cases key <;> rfl

theorem read_some_eq_ok_iff {setting : key.Setting} :
    key.read (some text) = .ok setting ↔ key.Means text setting := by
  cases key with
  | blockMode => exact readBlockMode_eq_ok_iff
  | escapes => exact readEscapes_eq_ok_iff
  | columns => exact readColumns_eq_ok_iff
  | startX | startY | spacingX | spacingY =>
    rw [read]
    exact readCoordinate_eq_ok_iff _

theorem read_some_eq_error_iff :
    key.read (some text) = .error fault ↔ key.HasFault text fault := by
  cases key with
  | blockMode => exact readBlockMode_eq_error_iff
  | escapes => exact readEscapes_eq_error_iff
  | columns => exact readColumns_eq_error_iff
  | startX | startY | spacingX | spacingY =>
    rw [read]
    exact readCoordinate_eq_error_iff _

theorem read_eq_error_iff {given : Option String} :
    key.read given = .error fault ↔ ∃ text, given = some text ∧ key.HasFault text fault := by
  cases given with
  | none =>
    rw [read_none]
    exact ⟨nofun, nofun⟩
  | some given =>
    rw [read_some_eq_error_iff]
    apply Iff.intro
    · exact fun has => ⟨given, rfl, has⟩
    · rintro ⟨text, ⟨⟩, has⟩
      exact has

/-- What a variable gives is what is read from it alone. -/
theorem read_eq_ok_iff {given : Option String} {setting : key.Setting} :
    key.read given = .ok setting ↔ key.Gives given setting := by
  cases given with
  | none =>
    rw [read_none, Except.ok.injEq, eq_comm]
    rfl
  | some text => exact read_some_eq_ok_iff

theorem HasFault.not_means (has : key.HasFault text fault) (setting : key.Setting) :
    ¬ key.Means text setting := by
  intro means
  have read := read_some_eq_error_iff.2 has
  rw [read_some_eq_ok_iff.2 means] at read
  cases read

/-- A fault is told in words that quote the whole text, unless a number was read and is zero. -/
theorem HasFault.quotes (has : key.HasFault text fault) :
    fault = .noColumns ∨
      ∃ front behind, fault.message = front ++ "'" ++ text ++ "'" ++ behind := by
  have quoted {opening closing front behind : String} (opens : opening = front ++ "'")
      (closes : closing = "'" ++ behind) :
      opening ++ text ++ closing = front ++ "'" ++ text ++ "'" ++ behind := by
    rw [opens, closes, ← String.append_assoc]
  have malformed (key : Variable) :
      key.name ++ ": cannot parse '" = key.name ++ ": cannot parse " ++ "'" := by
    rw [String.append_assoc]
    rfl
  cases key with
  | blockMode =>
    obtain ⟨-, rfl⟩ := has
    exact .inr ⟨"unsupported extract mode ", " (expected 'compat' or 'balanced')", quoted rfl rfl⟩
  | escapes =>
    obtain ⟨-, rfl⟩ := has
    exact .inr ⟨"unsupported escape mode ", " (expected 'decode' or 'raw')", quoted rfl rfl⟩
  | columns =>
    rcases has with ⟨-, rfl⟩ | ⟨-, rfl⟩
    · exact .inr ⟨_, "", quoted (malformed _) rfl⟩
    · exact .inl rfl
  | startX | startY | spacingX | spacingY =>
    obtain ⟨-, rfl⟩ := has
    exact .inr ⟨_, "", quoted (malformed _) rfl⟩

end Variable

end Variable

/-! ## One variable after another -/

/-- Reads the variables of a list in their order up to the first fault. Behind the last one, the
settings hold what every variable gives, those that were read before included. -/
inductive Loads (lookup : String → Option String) :
    List Variable → Except ValueFault Settings → Prop
  | done {settings : Settings}
      (values : ∀ key : Variable, key.read (lookup key.name) = .ok (settings.value key)) :
      Loads lookup [] (.ok settings)
  | step (key : Variable) {rest : List Variable} {next : key.Setting → Except ValueFault Settings}
      (behind : ∀ setting, key.read (lookup key.name) = .ok setting →
        Loads lookup rest (next setting)) :
      Loads lookup (key :: rest) (key.read (lookup key.name) >>= next)

section Load

variable {lookup : String → Option String} {outcome : Except ValueFault Settings}

/-- All variables are read, in the order in which they are listed. -/
theorem loads_load (lookup : String → Option String) : Loads lookup Variable.all (load lookup) := by
  refine .step .blockMode fun blockMode blockModeRead => ?_
  refine .step .escapes fun escapes escapesRead => ?_
  refine .step .columns fun columns columnsRead => ?_
  refine .step .startX fun startX startXRead => ?_
  refine .step .startY fun startY startYRead => ?_
  refine .step .spacingX fun spacingX spacingXRead => ?_
  refine .step .spacingY fun spacingY spacingYRead => ?_
  refine .done fun key => ?_
  cases key with
  | blockMode => exact blockModeRead
  | escapes => exact escapesRead
  | columns => exact columnsRead
  | startX => exact startXRead
  | startY => exact startYRead
  | spacingX => exact spacingXRead
  | spacingY => exact spacingYRead

/-- Settings that are reached hold what each variable gives by itself. -/
theorem Loads.read_eq {keys : List Variable} {settings : Settings} (loads : Loads lookup keys outcome)
    (done : outcome = .ok settings) (key : Variable) :
    key.read (lookup key.name) = .ok (settings.value key) := by
  induction loads with
  | done values =>
    cases done
    exact values key
  | step first behind ih =>
    cases read : first.read (lookup first.name) with
    | error fault =>
      rw [read] at done
      cases done
    | ok setting =>
      rw [read] at done
      exact ih setting read done

/-- The first variable that fails is the first of all, or the first behind one that passes. -/
theorem exists_first_cons_iff {passes fails : Variable → Prop} {first : Variable}
    {rest : List Variable} :
    (∃ before key after, first :: rest = before ++ key :: after ∧
      (∀ earlier ∈ before, passes earlier) ∧ fails key) ↔
      fails first ∨ passes first ∧ ∃ before key after, rest = before ++ key :: after ∧
        (∀ earlier ∈ before, passes earlier) ∧ fails key := by
  apply Iff.intro
  · rintro ⟨before, key, after, split, passed, failed⟩
    cases before with
    | nil =>
      cases split
      exact .inl failed
    | cons _ before =>
      cases split
      obtain ⟨here, passed⟩ := List.forall_mem_cons.1 passed
      exact .inr ⟨here, before, key, after, rfl, passed, failed⟩
  · rintro (failed | ⟨here, before, key, after, rfl, passed, failed⟩)
    · exact ⟨[], first, rest, rfl, List.forall_mem_nil _, failed⟩
    · exact ⟨first :: before, key, after, rfl, List.forall_mem_cons.2 ⟨here, passed⟩, failed⟩

/-- A fault is that of the first variable that has one. -/
theorem Loads.eq_error_iff {keys : List Variable} {fault : ValueFault}
    (loads : Loads lookup keys outcome) :
    outcome = .error fault ↔ ∃ (before : List Variable) (key : Variable) (after : List Variable),
      keys = before ++ key :: after ∧
      (∀ earlier ∈ before, ∃ setting, earlier.read (lookup earlier.name) = .ok setting) ∧
      key.read (lookup key.name) = .error fault := by
  induction loads with
  | done values => simp
  | @step first rest next behind ih =>
    rw [exists_first_cons_iff]
    cases read : first.read (lookup first.name) with
    | error given =>
      have stopped : (∃ setting, (.error given : Except ValueFault first.Setting) = .ok setting) ↔
          False := ⟨nofun, nofun⟩
      have given_eq : ((.error given : Except ValueFault first.Setting) >>= next) = .error given :=
        rfl
      rw [stopped, false_and, or_false, given_eq, Except.error.injEq, Except.error.injEq]
    | ok setting =>
      have passed : ∃ setting', (.ok setting : Except ValueFault first.Setting) = .ok setting' :=
        ⟨setting, rfl⟩
      rw [or_iff_right nofun, and_iff_right passed]
      exact ih setting read

/-- Settings are what they hold for the variables. -/
theorem eq_of_value_eq {settings settings' : Settings}
    (same : ∀ key, settings.value key = settings'.value key) : settings = settings' := by
  obtain ⟨blockMode, escapes, ⟨startX, startY, spacingX, spacingY, columns⟩⟩ := settings
  obtain rfl : blockMode = _ := same .blockMode
  obtain rfl : escapes = _ := same .escapes
  obtain rfl : columns = _ := same .columns
  obtain rfl : startX = _ := same .startX
  obtain rfl : startY = _ := same .startY
  obtain rfl : spacingX = _ := same .spacingX
  obtain rfl : spacingY = _ := same .spacingY
  rfl

/-- Without a fault in any variable, there are settings. -/
theorem exists_load_eq_ok
    (none : ∀ key : Variable, ∃ setting, key.read (lookup key.name) = .ok setting) :
    ∃ settings, load lookup = .ok settings := by
  cases outcome : load lookup with
  | ok settings => exact ⟨settings, rfl⟩
  | error fault =>
    obtain ⟨-, key, -, -, -, failed⟩ := (loads_load lookup).eq_error_iff.1 outcome
    obtain ⟨setting, passed⟩ := none key
    rw [failed] at passed
    cases passed

theorem load_eq_ok_iff {settings : Settings} :
    load lookup = .ok settings ↔
      ∀ key : Variable, key.Gives (lookup key.name) (settings.value key) := by
  apply Iff.intro
  · exact fun loaded key => Variable.read_eq_ok_iff.1 ((loads_load lookup).read_eq loaded key)
  · intro gives
    have read : ∀ key : Variable, key.read (lookup key.name) = .ok (settings.value key) :=
      fun key => Variable.read_eq_ok_iff.2 (gives key)
    obtain ⟨loaded, outcome⟩ := exists_load_eq_ok fun key => ⟨_, read key⟩
    rw [outcome]
    refine congrArg Except.ok (eq_of_value_eq fun key => ?_)
    have same := (loads_load lookup).read_eq outcome key
    rw [read key] at same
    exact (Except.ok.inj same).symm

/-- Either every variable gives a setting, or the first one that does not decides the fault. -/
theorem load_eq_error_iff {fault : ValueFault} :
    load lookup = .error fault ↔
      ∃ (before : List Variable) (key : Variable) (after : List Variable) (text : String),
      Variable.all = before ++ key :: after ∧
      (∀ earlier ∈ before, ∃ setting, earlier.Gives (lookup earlier.name) setting) ∧
      lookup key.name = some text ∧ key.HasFault text fault := by
  simp only [(loads_load lookup).eq_error_iff, Variable.read_eq_ok_iff,
    Variable.read_eq_error_iff, exists_and_left]

theorem exists_load_eq_ok_iff :
    (∃ settings, load lookup = .ok settings) ↔
      ∀ (key : Variable) (text : String), lookup key.name = some text →
        ∃ setting, key.Means text setting := by
  apply Iff.intro
  · rintro ⟨settings, loaded⟩ key text set
    have gives := load_eq_ok_iff.1 loaded key
    rw [set] at gives
    exact ⟨_, gives⟩
  · intro means
    refine exists_load_eq_ok fun key => ?_
    cases set : lookup key.name with
    | none => exact ⟨_, Variable.read_none key⟩
    | some text =>
      obtain ⟨setting, means⟩ := means key text set
      exact ⟨setting, Variable.read_some_eq_ok_iff.2 means⟩

theorem one_le_columns_of_load {settings : Settings} (loaded : load lookup = .ok settings) :
    1 ≤ settings.grid.columns := by
  have gives : Variable.Gives .columns (lookup (Variable.name .columns)) settings.grid.columns :=
    load_eq_ok_iff.1 loaded .columns
  cases set : lookup (Variable.name .columns) with
  | none =>
    rw [set] at gives
    have five : settings.grid.columns = 5 := gives
    omega
  | some text =>
    rw [set] at gives
    have denotes : Variable.DenotesColumns text settings.grid.columns := gives
    exact denotes.2.2

/-- The setting of a variable depends on no other variable. -/
theorem value_eq_of_load {lookup' : String → Option String} {settings settings' : Settings}
    (loaded : load lookup = .ok settings) (loaded' : load lookup' = .ok settings') {key : Variable}
    (same : lookup' key.name = lookup key.name) : settings'.value key = settings.value key := by
  have read := (loads_load lookup).read_eq loaded key
  have read' := (loads_load lookup').read_eq loaded' key
  rw [same, read] at read'
  exact (Except.ok.inj read').symm

/-- Nothing but the seven variables counts. -/
theorem load_congr {lookup' : String → Option String}
    (same : ∀ key : Variable, lookup' key.name = lookup key.name) : load lookup' = load lookup := by
  simp only [load, same]

/-- **The settings, variable by variable, and the fault.** The settings hold, for each variable, what
its text means, and the default where it is not set; they are there exactly if all texts mean
something, and then have a column. Changing one variable changes no other setting. Otherwise the
fault is that of the first variable, in the order of the list, with a text that means nothing, and
it quotes that text as it was given, unless the text is a number of columns that is zero. Names
other than the seven count for nothing. -/
theorem load_variablewise (lookup : String → Option String) :
    (∀ settings, load lookup = .ok settings ↔
      ∀ key : Variable, key.Gives (lookup key.name) (settings.value key)) ∧
    ((∃ settings, load lookup = .ok settings) ↔
      ∀ (key : Variable) (text : String), lookup key.name = some text →
        ∃ setting, key.Means text setting) ∧
    (∀ settings, load lookup = .ok settings → 1 ≤ settings.grid.columns) ∧
    (∀ (changed : Variable) (lookup' : String → Option String),
      (∀ key : Variable, key ≠ changed → lookup' key.name = lookup key.name) →
      ∀ settings settings', load lookup = .ok settings → load lookup' = .ok settings' →
        ∀ key, key ≠ changed → settings'.value key = settings.value key) ∧
    (∀ fault, load lookup = .error fault ↔
      ∃ (before : List Variable) (key : Variable) (after : List Variable) (text : String),
      [.blockMode, .escapes, .columns, .startX, .startY, .spacingX, .spacingY] =
        before ++ key :: after ∧
      (∀ earlier ∈ before, ∃ setting, earlier.Gives (lookup earlier.name) setting) ∧
      lookup key.name = some text ∧ key.HasFault text fault) ∧
    (∀ (key : Variable) (text : String) (fault : ValueFault), key.HasFault text fault →
      (∀ setting, ¬ key.Means text setting) ∧
      (fault = .noColumns ∨
        ∃ front behind, fault.message = front ++ "'" ++ text ++ "'" ++ behind)) ∧
    (∀ lookup' : String → Option String,
      (∀ key : Variable, lookup' key.name = lookup key.name) → load lookup' = load lookup) := by
  refine ⟨fun settings => load_eq_ok_iff, exists_load_eq_ok_iff,
    fun settings => one_le_columns_of_load, ?_, fun fault => load_eq_error_iff,
    fun key text fault has => ⟨has.not_means, has.quotes⟩, fun lookup' => load_congr⟩
  intro changed lookup' same settings settings' loaded loaded' key ne
  exact value_eq_of_load loaded loaded' (same key ne)

/-- Of two faults, the one of the variable that is read first is told. -/
example :
    let lookup : String → Option String := fun name =>
      if name = "KARD_LAYOUT_COLUMNS" then some "0"
      else if name = "KARD_ESCAPES" then some " raw" else none
    load lookup = .error (.unknownEscapePolicy " raw") :=
  rfl

end Load

end Flashdeck.Settings
