import Flashdeck.Deck
import Flashdeck.Proofs.Search.Parallel
import Flashdeck.Proofs.Text.LineEnd

/-!
# Decks do not depend on line ends

Carriage returns in front of the line feeds of a script leave its cards as they are. A reader that
reads a lexeme, a token, a block or a property reads the same one in the script with returns, with
returns in its content and in what it leaves: a return is a blank where the feed is one, and neither
can be escaped between quotes. Behind a return begins nothing, so the searches find the same matches
in the same order; and what a card holds was tidied.

* `Lexeme.quoted_withReturns` and its like: one lemma to a reader.
* `tokenize_withReturns`: the tokens.
* `blockBodies_withReturns`, `fieldsOfBody_withReturns`: the blocks, and the fields of a body.
* `Settings.cards_withReturns`: the cards.
-/

namespace Flashdeck.Script

open Flashdeck.Text

/-- Two readers that read one thing and then another, where the parts correspond. -/
theorem bind_map_eq_map_bind {α α' β β' : Type} {f : α → α'} {g : β → β'} {next : α → Option β}
    {next' : α' → Option β'} (step : ∀ read, next' (f read) = (next read).map g)
    (first : Option α) : (first.map f).bind next' = (first.bind next).map g := by
  cases first with
  | none => rfl
  | some read => exact step read

/-! ## Lexemes -/

namespace Lexeme

/-- What is read from a text with returns, and what is left of it. -/
def returned : List Char × List Char → List Char × List Char :=
  Prod.map withReturns withReturns

/-- A return is a blank, as the feed behind it. -/
theorem skipBlanks_withReturns (cs : List Char) :
    skipBlanks (withReturns cs) = withReturns (skipBlanks cs) :=
  dropWhile_withReturns (by decide) cs

theorem symbol_withReturns {expected : Char} (feed : expected ≠ '\n') (back : expected ≠ '\r')
    (cs : List Char) : symbol expected (withReturns cs) = (symbol expected cs).map withReturns := by
  cases cs with
  | nil => rfl
  | cons c cs =>
    by_cases same : c = '\n'
    · subst same
      rw [withReturns_feed, symbol, if_neg (Ne.symm back), symbol, if_neg (Ne.symm feed)]
      rfl
    · rw [withReturns_cons_of_ne same, symbol, symbol]
      split <;> rfl

theorem isPrefixOf?_withReturns {front : List Char} (solid : ∀ c ∈ front, c ≠ '\n' ∧ c ≠ '\r')
    (cs : List Char) :
    front.isPrefixOf? (withReturns cs) = (front.isPrefixOf? cs).map withReturns := by
  induction front generalizing cs with
  | nil => rfl
  | cons d front ih =>
    have here := solid d List.mem_cons_self
    have behind := ih fun c mem => solid c (List.mem_cons_of_mem d mem)
    cases cs with
    | nil => rfl
    | cons c cs =>
      by_cases same : c = '\n'
      · subst same
        simp [withReturns_feed, List.isPrefixOf?, here.1, here.2]
      · rw [withReturns_cons_of_ne same, List.isPrefixOf?, List.isPrefixOf?]
        split
        · exact behind cs
        · rfl

/-- A run of a class without line ends is the same one in both texts. -/
theorem run_withReturns {p : Char → Bool} (feed : p '\n' = false) (back : p '\r' = false)
    (cs : List Char) : run p (withReturns cs) = (run p cs).map (Prod.map id withReturns) := by
  rw [run, run, takeWhile_withReturns_of_eq_false feed back,
    dropWhile_withReturns (back.trans feed.symm)]
  split <;> rfl

theorem backtickContent_withReturns (cs : List Char) :
    backtickContent (withReturns cs) = (backtickContent cs).map returned := by
  induction cs with
  | nil => rfl
  | cons c cs ih =>
    by_cases feed : c = '\n'
    · subst feed
      simp [withReturns_feed, backtickContent, ih, returned, Function.comp_def]
    · rw [withReturns_cons_of_ne feed, backtickContent, backtickContent, ih]
      split
      · rfl
      · simp [returned, withReturns_cons_of_ne feed, Function.comp_def]

theorem quotedContent_cons_of_ne {c : Char} (quote : c ≠ '"') (slash : c ≠ '\\') (cs : List Char) :
    quotedContent (c :: cs) =
      (quotedContent cs).map fun (content, rest) => (c :: content, rest) := by
  rw [quotedContent, if_neg quote]
  · exact fun same _ => slash same
  · exact fun _ _ same _ => slash same

theorem quotedContent_withReturns (cs : List Char) :
    quotedContent (withReturns cs) = (quotedContent cs).map returned := by
  fun_induction quotedContent cs with
  | case1 => rfl
  | case2 => rfl
  | case3 c cs line =>
    by_cases feed : c = '\n'
    · subst feed
      rfl
    · rw [withReturns_cons_of_ne (by decide), withReturns_cons_of_ne feed, quotedContent,
        if_pos line]
      rfl
  | case4 c cs line ih =>
    have feed : c ≠ '\n' := by
      intro same
      subst same
      exact line rfl
    have slash : '\\' ≠ '\n' := by decide
    rw [withReturns_cons_of_ne slash, withReturns_cons_of_ne feed, quotedContent,
      if_neg line, ih]
    simp [returned, withReturns_cons_of_ne slash, withReturns_cons_of_ne feed, Function.comp_def]
  | case5 cs => rfl
  | case6 c cs single pair quote ih =>
    by_cases feed : c = '\n'
    · subst feed
      rw [withReturns_feed, quotedContent_cons_of_ne (by decide) (by decide),
        quotedContent_cons_of_ne (by decide) (by decide), ih]
      simp [returned, withReturns_feed, Function.comp_def]
    · have slash : c ≠ '\\' := by
        intro same
        subst same
        cases cs with
        | nil => exact single rfl rfl
        | cons d cs => exact pair d cs rfl rfl
      rw [withReturns_cons_of_ne feed, quotedContent_cons_of_ne quote slash, ih]
      simp [returned, withReturns_cons_of_ne feed, Function.comp_def]

theorem backtick_withReturns (cs : List Char) :
    backtick (withReturns cs) = (backtick cs).map returned := by
  rw [backtick, backtick, symbol_withReturns (by decide) (by decide)]
  cases symbol '`' cs with
  | none => rfl
  | some behind => exact backtickContent_withReturns behind

theorem quoted_withReturns (cs : List Char) :
    quoted (withReturns cs) = (quoted cs).map returned := by
  rw [quoted, quoted, symbol_withReturns (by decide) (by decide)]
  cases symbol '"' cs with
  | none => rfl
  | some behind => exact quotedContent_withReturns behind

end Lexeme

/-! ## Tokens -/

namespace Token

/-- A token as it is read from the text with returns. -/
def withReturns (token : Token) : Token where
  gap := Text.withReturns token.gap
  kind := token.kind
  text := Text.withReturns token.text

theorem kind_withReturns (token : Token) : token.withReturns.kind = token.kind := rfl

theorem spelling_withReturns (token : Token) :
    token.withReturns.spelling = Text.withReturns token.spelling :=
  (withReturns_append token.gap token.text).symm

theorem readText_withReturns {c : Char} (solid : isBlank c = false) (cs : List Char) :
    readText c (Text.withReturns cs) = ((readText c cs).1, Lexeme.returned (readText c cs).2) := by
  have feed : c ≠ '\n' := by
    intro same
    subst same
    exact absurd solid (by decide)
  have backtick := Lexeme.backtick_withReturns (c :: cs)
  have quoted := Lexeme.quoted_withReturns (c :: cs)
  rw [withReturns_cons_of_ne feed] at backtick quoted
  rw [readText, readText, backtick, quoted]
  cases Lexeme.backtick (c :: cs) with
  | some found => simp [Lexeme.returned, withReturns_append, withReturns_cons_of_ne]
  | none =>
    cases Lexeme.quoted (c :: cs) with
    | some found => simp [Lexeme.returned, withReturns_append, withReturns_cons_of_ne]
    | none =>
      have run : ∀ {p : Char → Bool}, p '\r' = p '\n' →
          (c :: (Text.withReturns cs).takeWhile p, (Text.withReturns cs).dropWhile p) =
            Lexeme.returned (c :: cs.takeWhile p, cs.dropWhile p) := by
        intro p same
        rw [takeWhile_withReturns same, dropWhile_withReturns same, Lexeme.returned, Prod.map_apply,
          withReturns_cons_of_ne feed]
      have word : kindOfWord (c :: (Text.withReturns cs).takeWhile isWordChar) =
          kindOfWord (c :: cs.takeWhile isWordChar) := by
        rw [takeWhile_withReturns_of_eq_false rfl rfl]
      simp only [Option.map_none]
      split
      · rw [run rfl]
      · split
        · rw [run rfl, word]
        · rw [Lexeme.returned, Prod.map_apply, withReturns_cons_of_ne feed]
          rfl

end Token

theorem tokenize_withReturns (cs : List Char) :
    tokenize (withReturns cs) = (tokenize cs).map Token.withReturns := by
  induction length : cs.length using Nat.strongRecOn generalizing cs with
  | ind n ih =>
    have skipped := Lexeme.skipBlanks_withReturns cs
    cases skip : Lexeme.skipBlanks cs with
    | nil =>
      rw [skip] at skipped
      rw [tokenize_of_skipBlanks_eq_nil skip, tokenize_of_skipBlanks_eq_nil skipped, List.map_nil]
    | cons c rest =>
      have shorter := Lexeme.length_skipBlanks_le cs
      have left := Token.length_readText_le c rest
      rw [skip, List.length_cons] at shorter
      have solid : isBlank c = false := noBlankFront_skipBlanks cs c (by rw [skip]; rfl)
      have feed : c ≠ '\n' := by
        intro same
        subst same
        exact absurd solid (by decide)
      rw [skip, withReturns_cons_of_ne feed] at skipped
      rw [tokenize_of_skipBlanks_eq_cons skip, tokenize_of_skipBlanks_eq_cons skipped,
        Token.readText_withReturns solid, List.map_cons, takeWhile_withReturns (by decide)]
      exact congrArg _ (ih (Token.readText c rest).2.2.length (by omega) _ rfl)

/-! ## Blocks -/

namespace Block.Balanced

/-- A block as it is read from the tokens of the text with returns. -/
def withReturns (block : Balanced) : Balanced where
  inside := block.inside.map Token.withReturns
  close := block.close.withReturns

theorem readKind_map_withReturns (kind : Kind) (tokens : List Token) :
    readKind kind (tokens.map Token.withReturns) =
      (readKind kind tokens).map (List.map Token.withReturns) := by
  cases tokens with
  | nil => rfl
  | cons token tokens =>
    rw [List.map_cons, readKind, readKind, Token.kind_withReturns]
    split <;> rfl

theorem readInside_map_withReturns (depth : Nat) (tokens : List Token) :
    readInside depth (tokens.map Token.withReturns) =
      (readInside depth tokens).map (Prod.map withReturns (List.map Token.withReturns)) := by
  induction tokens generalizing depth with
  | nil => rfl
  | cons token tokens ih =>
    rw [List.map_cons, readInside, readInside, Token.kind_withReturns]
    cases nesting depth token.kind with
    | none => rfl
    | some inner =>
      simp only [ih, Option.map_map]
      rfl

/-- Blocks are read by the kinds of the tokens alone. -/
theorem read_map_withReturns (tokens : List Token) :
    read (tokens.map Token.withReturns) =
      (read tokens).map (Prod.map withReturns (List.map Token.withReturns)) := by
  simp only [read, Option.bind_eq_bind]
  rw [readKind_map_withReturns]
  refine bind_map_eq_map_bind (fun tokens => ?_) _
  rw [readKind_map_withReturns]
  refine bind_map_eq_map_bind (fun tokens => ?_) _
  rw [readKind_map_withReturns]
  refine bind_map_eq_map_bind (fun tokens => ?_) _
  rw [readInside_map_withReturns]
  refine bind_map_eq_map_bind (fun found => ?_) _
  rw [Prod.map_snd, readKind_map_withReturns]
  refine bind_map_eq_map_bind (fun tokens => ?_) _
  rfl

theorem body_withReturns (block : Balanced) :
    block.withReturns.body = Text.withReturns block.body := by
  have spelled : block.withReturns.inside.flatMap Token.spelling =
      Text.withReturns (block.inside.flatMap Token.spelling) := by
    rw [withReturns, List.flatMap_map]
    induction block.inside with
    | nil => rfl
    | cons token tokens ih =>
      rw [List.flatMap_cons, List.flatMap_cons, ih, token.spelling_withReturns, withReturns_append]
  have gap : block.withReturns.close.gap = Text.withReturns block.close.gap := rfl
  rw [body, spelled, gap, ← withReturns_append, trim_withReturns (by decide), body]

theorem values_map_withReturns (tokens : List Token) :
    pattern.values (tokens.map Token.withReturns) = (pattern.values tokens).map withReturns :=
  Pattern.values_map_items read_map_withReturns tokens

end Block.Balanced

namespace Block.Compat

theorem readHead_withReturns (cs : List Char) :
    readHead (withReturns cs) = (readHead cs).map withReturns := by
  simp only [readHead, Option.bind_eq_bind]
  rw [Lexeme.isPrefixOf?_withReturns (by simp [Lexeme.keyword])]
  refine bind_map_eq_map_bind (fun behind => ?_) _
  rw [Lexeme.skipBlanks_withReturns, Lexeme.symbol_withReturns (by decide) (by decide)]
  refine bind_map_eq_map_bind (fun behind => ?_) _
  rw [Lexeme.skipBlanks_withReturns, Lexeme.symbol_withReturns (by decide) (by decide)]
  refine bind_map_eq_map_bind (fun behind => ?_) _
  rw [Lexeme.skipBlanks_withReturns]
  rfl

theorem readTail_withReturns (cs : List Char) :
    readTail (withReturns cs) = (readTail cs).map withReturns := by
  rw [readTail, Lexeme.skipBlanks_withReturns, Lexeme.symbol_withReturns (by decide) (by decide),
    readTail]

theorem readBody_withReturns (cs : List Char) :
    readBody (withReturns cs) = (readBody cs).map Lexeme.returned := by
  induction cs with
  | nil => rfl
  | cons c cs ih =>
    by_cases feed : c = '\n'
    · subst feed
      simp [withReturns_feed, readBody, ih, Lexeme.returned, Function.comp_def]
    · have closed : (if c = '}' then readTail (withReturns cs) else none) =
          (if c = '}' then readTail cs else none).map withReturns := by
        rw [readTail_withReturns]
        split <;> rfl
      rw [withReturns_cons_of_ne feed, readBody, readBody, closed, ih]
      cases if c = '}' then readTail cs else none with
      | some rest => rfl
      | none => simp [Lexeme.returned, withReturns_cons_of_ne feed, Function.comp_def]

theorem read_withReturns (cs : List Char) :
    read (withReturns cs) = (read cs).map Lexeme.returned := by
  simp only [read, Option.bind_eq_bind]
  rw [readHead_withReturns]
  refine bind_map_eq_map_bind (fun inside => ?_) _
  rw [readBody_withReturns]
  refine bind_map_eq_map_bind (fun found => ?_) _
  have trimmed := trimEnd_withReturns (p := isBlank) rfl found.1
  exact congrArg (fun body => some (body, withReturns found.2)) trimmed

theorem bodies_withReturns (script : List Char) :
    bodies (withReturns script) = (bodies script).map withReturns := by
  apply Pattern.values_flatMap
  · exact read_withReturns
  · intro c cs before after split before_ne after_ne
    rw [eq_feed_of_withReturn_eq_append split before_ne after_ne]
    rfl

end Block.Compat

/-- The blocks of a script with returns are those of the script, with returns. -/
theorem blockBodies_withReturns (mode : BlockMode) (script : List Char) :
    blockBodies mode (withReturns script) = (blockBodies mode script).map withReturns := by
  cases mode with
  | compat => exact Block.Compat.bodies_withReturns script
  | balanced =>
    rw [blockBodies, tokenize_withReturns, Block.Balanced.values_map_withReturns, blockBodies,
      List.map_map, List.map_map]
    exact List.map_congr_left fun block _ => block.body_withReturns

/-! ## Properties -/

namespace Literal

/-- A literal as it is read from the text with returns. -/
def withReturns : Literal → Literal
  | .backtick content => .backtick (Text.withReturns content)
  | .quoted content => .quoted (Text.withReturns content)
  | .numeral digits => .numeral digits

theorem read_withReturns (cs : List Char) :
    read (Text.withReturns cs) = (read cs).map (Prod.map withReturns Text.withReturns) := by
  rw [read, read, Lexeme.backtick_withReturns, Lexeme.quoted_withReturns]
  cases Lexeme.backtick cs with
  | some found => rfl
  | none =>
    cases Lexeme.quoted cs with
    | some found => rfl
    | none =>
      have numeral : Lexeme.numeral (Text.withReturns cs) =
          (Lexeme.numeral cs).map (Prod.map id Text.withReturns) :=
        Lexeme.run_withReturns rfl rfl cs
      rw [numeral]
      cases Lexeme.numeral cs <;> rfl

/-- A value was tidied, so it shows no line ends. -/
theorem value_withReturns (policy : EscapePolicy) (literal : Literal) :
    literal.withReturns.value policy = literal.value policy := by
  cases literal with
  | backtick content => simp only [withReturns, value, tidy_withReturns]
  | quoted content => simp only [withReturns, value, tidy_withReturns]
  | numeral digits => rfl

end Literal

namespace Property

/-- A property as it is read from the text with returns. -/
def withReturns (property : Property) : Property where
  key := property.key
  literal := property.literal.withReturns

theorem read_withReturns (cs : List Char) :
    read (Text.withReturns cs) = (read cs).map (Prod.map withReturns Text.withReturns) := by
  have word : Lexeme.word (Text.withReturns cs) =
      (Lexeme.word cs).map (Prod.map id Text.withReturns) :=
    Lexeme.run_withReturns rfl rfl cs
  simp only [read, Option.bind_eq_bind]
  rw [word]
  refine bind_map_eq_map_bind (fun key => ?_) _
  rw [Prod.map_snd, Lexeme.skipBlanks_withReturns,
    Lexeme.symbol_withReturns (by decide) (by decide)]
  refine bind_map_eq_map_bind (fun behind => ?_) _
  rw [Lexeme.skipBlanks_withReturns, Literal.read_withReturns]
  refine bind_map_eq_map_bind (fun literal => ?_) _
  rfl

theorem values_withReturns (body : List Char) :
    pattern.values (Text.withReturns body) = (pattern.values body).map withReturns := by
  apply Pattern.values_flatMap
  · exact read_withReturns
  · intro c cs before after split before_ne after_ne
    rw [eq_feed_of_withReturn_eq_append split before_ne after_ne]
    rfl

end Property

/-- The fields of a body do not depend on its line ends. -/
theorem fieldsOfBody_withReturns (policy : EscapePolicy) (body : List Char) :
    fieldsOfBody policy (withReturns body) = fieldsOfBody policy body := by
  have entries : ∀ property : Property,
      property.withReturns.entry policy = property.entry policy := by
    intro property
    rw [Property.entry, Property.entry, Property.withReturns, Literal.value_withReturns]
  rw [fieldsOfBody, Property.values_withReturns, List.map_map, fieldsOfBody]
  exact congrArg Fields.ofList (List.map_congr_left fun property _ => entries property)

end Flashdeck.Script

/-! ## Cards -/

namespace Flashdeck.Settings

open Flashdeck.Text

/-- **Carriage returns in front of the line feeds of a script change none of its cards**, by either
rule for blocks and under either escape policy. -/
theorem cards_withReturns (settings : Settings) (script : List Char) :
    settings.cards (withReturns script) = settings.cards script := by
  rw [cards, cards, bodies, bodies, Script.blockBodies_withReturns, cardsOfBodies, cardsOfBodies,
    List.filterMap_map]
  congr 1
  funext body
  rw [Function.comp_apply, Script.fieldsOfBody_withReturns]

end Flashdeck.Settings
