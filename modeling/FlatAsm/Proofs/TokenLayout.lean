import FlatAsm.Proofs.FormulaBounds
import FlatAsm.Proofs.SourceSpans

/-!
# Layout and letter case

A text may be rewritten in two ways: blanks may be inserted anywhere but
within a token, and the letters of registers and mnemonics may be written in
the other case.  The text so rewritten is read as the same tokens, except
that keywords are spelled in the new way.

Every token is read up to its end, and what is behind it matters only if it
goes on a run.  Neither a blank nor a letter in the other case does so where
the text has not done so before.
-/

namespace FlatAsm

/-! ## Letter case -/

namespace Text

/-- The small letter for a capital one, and any other byte as it is. -/
def lowerByte (byte : UInt8) : UInt8 :=
  if 0x41 ≤ byte ∧ byte ≤ 0x5a then byte + 0x20 else byte

/-- The texts differ in nothing but the case of letters. -/
def SameLetters (text other : Text) : Prop :=
  text.map lowerByte = other.map lowerByte

instance (text other : Text) : Decidable (SameLetters text other) :=
  inferInstanceAs (Decidable (_ = _))

/-- The property does not tell capital letters from small ones. -/
def IgnoresCase (member : UInt8 → Bool) : Prop :=
  ∀ byte, member (lowerByte byte) = member byte

/-- The letters are to be compared one by one. -/
theorem ignoresCase_of_letters {member : UInt8 → Bool}
    (alike : ∀ letter ∈ List.range 26,
      member (letter + 0x61).toUInt8 = member (letter + 0x41).toUInt8) :
    IgnoresCase member := by
  intro byte
  rw [lowerByte]
  split
  · next capital =>
    simp only [UInt8.le_iff_toNat_le] at capital
    obtain ⟨above, below⟩ : 0x41 ≤ byte.toNat ∧ byte.toNat ≤ 0x5a := capital
    have same : UInt8.ofNat (byte.toNat - 0x41 + 0x41) = byte := by
      rw [Nat.sub_add_cancel above, UInt8.ofNat_toNat]
    have letter := alike (byte.toNat - 0x41) (by simp; omega)
    rw [Nat.toUInt8_eq, Nat.toUInt8_eq, same] at letter
    rw [← letter]
    nth_rewrite 1 [← same]
    exact congrArg member (UInt8.ofNat_add _ 0x20).symm
  · rfl

theorem ignoresCase_isBlank : IgnoresCase Token.isBlank :=
  ignoresCase_of_letters (by decide)

namespace SameLetters

variable {text other : Text} {member : UInt8 → Bool}

theorem length_eq (same : SameLetters text other) :
    text.length = other.length := by
  simpa using congrArg List.length same

theorem drop (same : SameLetters text other) (count : Nat) :
    SameLetters (text.drop count) (other.drop count) := by
  rw [SameLetters, List.map_drop, List.map_drop, same]

theorem extract (same : SameLetters text other) (start stop : Nat) :
    SameLetters (text.extract start stop) (other.extract start stop) := by
  simp only [List.extract_eq_take_drop]
  rw [SameLetters, List.map_take, List.map_take, same.drop]

theorem all_eq (ignores : IgnoresCase member)
    (same : SameLetters text other) : text.all member = other.all member := by
  have lower (text : Text) :
      (text.map lowerByte).all member = text.all member := by
    rw [List.all_map]
    congr 1
    exact funext ignores
  rw [← lower, same, lower]

theorem stops_iff (ignores : IgnoresCase member)
    (same : SameLetters text other) :
    Token.Stops member text ↔ Token.Stops member other := by
  have lower (text : Text) :
      Token.Stops member (text.map lowerByte) ↔
        Token.Stops member text := by
    simp [Token.Stops, ignores _]
  rw [← lower, same, lower]

theorem afterBlanks_eq (same : SameLetters text other) (offset : Nat) :
    text.afterBlanks offset = other.afterBlanks offset := by
  have lower (text : Text) :
      ((text.map lowerByte).takeWhile Token.isBlank).length =
        (text.takeWhile Token.isBlank).length := by
    have alike : Token.isBlank ∘ lowerByte = Token.isBlank :=
      funext ignoresCase_isBlank
    rw [List.takeWhile_map, alike, List.length_map]
  rw [afterBlanks, afterBlanks, ← lower, same.drop, lower]

end SameLetters

/-- In words, case is turned byte by byte. -/
theorem lowerCase_of_word {word : Text}
    (inside : ∀ byte ∈ word, Token.isWordByte byte = true) :
    word.lowerCase = word.map lowerByte := by
  have onto (reversed : Text) :
      lowerCaseOnto reversed word =
        reversed.reverse ++ word.map lowerByte := by
    fun_induction lowerCaseOnto reversed word with
    | case1 => simp
    | case2 => exact absurd (inside 0xc4 (by simp)) (by decide)
    | case3 => exact absurd (inside 0xe2 (by simp)) (by decide)
    | case4 reversed byte rest _ _ inductionHypothesis =>
        rw [inductionHypothesis (List.forall_mem_cons.1 inside).2]
        simp [lowerByte]
  exact onto []

end Text

namespace Token.RunClass

variable {runs : RunClass}

theorem ignoresCase_starts (known : runs ∈ all) :
    Text.IgnoresCase runs.starts := by
  apply Text.ignoresCase_of_letters
  revert runs
  decide

theorem ignoresCase_goesOn (known : runs ∈ all) :
    Text.IgnoresCase runs.goesOn := by
  apply Text.ignoresCase_of_letters
  revert runs
  decide

theorem isRun_eq (known : runs ∈ all) {run other : Text}
    (same : Text.SameLetters run other) :
    runs.isRun run = runs.isRun other := by
  cases run with
  | nil => rw [List.eq_nil_of_length_eq_zero same.length_eq.symm]
  | cons first rest =>
      cases other with
      | nil => cases same
      | cons first' rest' =>
          obtain ⟨letter, others⟩ := List.cons.inj same
          rw [RunClass.isRun, RunClass.isRun,
            Text.SameLetters.all_eq (ignoresCase_goesOn known) others,
            ← ignoresCase_starts known, letter, ignoresCase_starts known]

end Token.RunClass

/-! ## Spacing -/

namespace Text

/--
The text, from an offset on, with an insertion in front of each byte and one
at the end.
-/
def spacedFrom (insertion : Nat → Text) : Nat → Text → Text
  | offset, [] => insertion offset
  | offset, byte :: rest =>
      insertion offset ++ byte :: spacedFrom insertion (offset + 1) rest

/-- The text with insertions at the offsets of its bytes and at its end. -/
def spaced (text : Text) (insertion : Nat → Text) : Text :=
  spacedFrom insertion 0 text

variable {insertion : Nat → Text}

theorem spacedFrom_append {offset : Nat} {front : Text}
    (empty : ∀ place, offset ≤ place → place < offset + front.length →
      insertion place = []) (back : Text) :
    spacedFrom insertion offset (front ++ back) =
      front ++ spacedFrom insertion (offset + front.length) back := by
  induction front generalizing offset with
  | nil => rfl
  | cons byte front inductionHypothesis =>
      have here := empty offset (Nat.le_refl _) (by simp)
      have later := @inductionHypothesis (offset + 1) (by
        intro place above below
        refine empty place (by omega) ?_
        rw [List.length_cons]
        omega)
      rw [List.cons_append, spacedFrom, here, later, List.nil_append,
        List.cons_append, List.length_cons, Nat.add_right_comm,
        Nat.add_assoc offset]

variable (blank : ∀ offset, ∀ byte ∈ insertion offset,
  Token.isBlank byte = true)

include blank

theorem dropWhile_spacedFrom_append {front : Text}
    (blanks : ∀ byte ∈ front, Token.isBlank byte = true) (offset : Nat)
    (back : Text) :
    (spacedFrom insertion offset (front ++ back)).dropWhile
        Token.isBlank =
      (spacedFrom insertion (offset + front.length) back).dropWhile
        Token.isBlank := by
  induction front generalizing offset with
  | nil => rfl
  | cons byte front inductionHypothesis =>
      obtain ⟨here, later⟩ := List.forall_mem_cons.1 blanks
      rw [List.cons_append, spacedFrom,
        List.dropWhile_append_of_pos (blank offset),
        List.dropWhile_cons_of_pos here, inductionHypothesis later,
        List.length_cons, Nat.add_assoc, Nat.add_comm 1]

/-- Blanks among the insertions are passed like those of the text. -/
theorem dropWhile_spacedFrom (text : Text) (offset : Nat) :
    (spacedFrom insertion offset (text.drop offset)).dropWhile
        Token.isBlank =
      (spacedFrom insertion (text.afterBlanks offset)
        (text.drop (text.afterBlanks offset))).dropWhile Token.isBlank := by
  rw [drop_afterBlanks, afterBlanks]
  nth_rewrite 1 [← @List.takeWhile_append_dropWhile _ Token.isBlank
    (text.drop offset)]
  exact dropWhile_spacedFrom_append blank
    (fun _ => List.mem_takeWhile_imp) offset _

/-- A token behind blanks is still there. -/
theorem dropWhile_spacedFrom_cons (offset : Nat) {byte : UInt8}
    (inside : Token.isBlank byte = false) (rest : Text) :
    (spacedFrom insertion offset (byte :: rest)).dropWhile Token.isBlank =
      byte :: spacedFrom insertion (offset + 1) rest := by
  rw [spacedFrom, List.dropWhile_append_of_pos (blank offset),
    List.dropWhile_cons_of_neg (by simp [inside])]

theorem stops_spacedFrom {member : UInt8 → Bool} {text : Text}
    (outside : ∀ byte, Token.isBlank byte = true → member byte = false)
    (ends : Token.Stops member text) (offset : Nat) :
    Token.Stops member (spacedFrom insertion offset text) := by
  intro byte first
  cases text with
  | nil => exact outside byte (blank offset byte (List.mem_of_head? first))
  | cons own rest =>
      rw [spacedFrom] at first
      cases inserted : insertion offset with
      | nil =>
          rw [inserted] at first
          exact ends byte first
      | cons new others =>
          rw [inserted] at first
          cases first
          exact outside byte (blank offset byte (by simp [inserted]))

end Text

/-! ## What follows a token -/

/-- A character is read up to the quote behind it. -/
theorem Text.firstCharacter_quoted {bytes : Text} (nonempty : bytes ≠ [])
    (after other : Text) :
    firstCharacter (bytes ++ 0x27 :: after) =
      firstCharacter (bytes ++ 0x27 :: other) := by
  have ended : isContinuation 0x27 = false := by decide
  rcases bytes with _ | ⟨first, _ | ⟨second, _ | ⟨third, _ | rest⟩⟩⟩
  · exact absurd rfl nonempty
  all_goals simp [firstCharacter, ended]
  all_goals grind

namespace Token

/-- A formula is read up to the parenthesis that closes it. -/
theorem passEnclosed_closed {formula after : Text}
    (closed : passEnclosed 1 [] (formula ++ 0x29 :: after) =
      some (0x29 :: formula.reverse, after)) (other : Text) :
    passEnclosed 1 [] (formula ++ 0x29 :: other) =
      some (0x29 :: formula.reverse, other) := by
  rw [passEnclosed_one_eq_some_iff] at closed ⊢
  obtain ⟨front, -, reversed, inLine, closes⟩ := closed
  have whole : front = formula ++ [0x29] := by
    simpa using (congrArg List.reverse reversed).symm
  exact ⟨front, by simp [whole], reversed, inLine, closes⟩

/-- Every run that ends before one text ends before the other. -/
def StopsAlike (after other : Text) : Prop :=
  ∀ runs ∈ RunClass.all, Stops runs.goesOn after → Stops runs.goesOn other

/-- Registers and mnemonics are keywords. -/
def isKeyword (token : Token) : Bool :=
  match token.kind with
  | .register _ | .mnemonic _ => true
  | _ => false

theorem spelling_of_isKeyword {token : Token}
    (keyword : token.isKeyword = true) : token.spelling = token.text := by
  unfold isKeyword at keyword
  unfold spelling
  split <;> simp_all

theorem isWordKind_of_sameLetters {word other : Text} {kind : Kind}
    (same : word.lowerCase = other.lowerCase)
    (classified : IsWordKind word kind) : IsWordKind other kind := by
  cases classified with
  | register listed => exact .register (same ▸ listed)
  | mnemonic noRegister listed named =>
      exact .mnemonic (same ▸ noRegister) listed (named.trans same)
  | identifier noRegister noMnemonic =>
      exact .identifier (same ▸ noRegister) (same ▸ noMnemonic)

namespace IsLexeme

variable {evaluator : Option Evaluator} {line : Int} {after other : Text}
  {token : Token}

/-- A token is read in front of any text that ends the same runs. -/
theorem of_stopsAlike (lexeme : IsLexeme evaluator line after token)
    (alike : StopsAlike after other) :
    IsLexeme evaluator line other token := by
  cases lexeme with
  | newline isRun ends =>
      exact .newline isRun (alike _ RunClass.newlines_mem ends)
  | number isRun ends exact =>
      exact .number isRun (alike _ RunClass.numbers_mem ends) exact
  | character first nonempty inLine =>
      rw [Text.firstCharacter_quoted nonempty after other] at first
      exact .character first nonempty inLine
  | string inside => exact .string inside
  | word isRun ends classified =>
      exact .word isRun (alike _ RunClass.words_mem ends) classified
  | punctuation mark => exact .punctuation mark
  | formula known closed computed =>
      exact .formula known (passEnclosed_closed closed other) computed

/-- A keyword may be spelled in any case. -/
theorem of_sameLetters (lexeme : IsLexeme evaluator line after token)
    (keyword : token.isKeyword = true) {word : Text}
    (same : Text.SameLetters token.text word) :
    IsLexeme evaluator line after { token with text := word } := by
  cases lexeme with
  | word isRun ends classified =>
      have isRun' := isRun
      rw [RunClass.isRun_eq RunClass.words_mem same] at isRun'
      refine .word isRun' ends (isWordKind_of_sameLetters ?_ classified)
      rw [Text.lowerCase_of_word
          (RunClass.goesOn_of_mem RunClass.words_mem isRun),
        Text.lowerCase_of_word
          (RunClass.goesOn_of_mem RunClass.words_mem isRun'), same]
  | _ => cases keyword

end IsLexeme

theorem RunClass.not_goesOn_of_isBlank {runs : RunClass}
    (known : runs ∈ all) {byte : UInt8} (blank : isBlank byte = true) :
    runs.goesOn byte = false := by
  simp only [isBlank, Bool.or_eq_true, decide_eq_true_eq] at blank
  revert known runs
  rcases blank with (rfl | rfl) | rfl <;> decide

end Token

/-! ## Rewriting a text -/

/-- The token with the spelling that stands at its place in another text. -/
def PlacedToken.respelled (recased : Text) (placed : PlacedToken) : Token :=
  if placed.token.isKeyword then
    { placed.token with text := recased.extract placed.start placed.stop }
  else placed.token

theorem PlacedToken.lineEnds_respelled (recased : Text)
    (placed : PlacedToken) :
    (placed.respelled recased).lineEnds = placed.token.lineEnds := by
  rw [respelled]
  split
  · next keyword =>
    unfold Token.isKeyword at keyword
    unfold Token.lineEnds
    split at keyword <;> simp_all
  · rfl

namespace TokenStream

/-- The stream with keywords as they are spelled in another text. -/
def respelled (stream : TokenStream) (text recased : Text) : TokenStream :=
  ⟨(stream.placed text).map (PlacedToken.respelled recased), stream.fault⟩

/--
How a text may be rewritten around tokens that stand in it.

The bytes to be inserted are given for each offset.  The text itself may be
replaced by one with other letter case.
-/
structure Rewriting (places : List PlacedToken) (text : Text)
    (insertion : Nat → Text) (recased : Text) : Prop where
  blank : ∀ offset, ∀ byte ∈ insertion offset, Token.isBlank byte = true
  /-- Nothing is inserted within a token. -/
  boundary : ∀ placed ∈ places, ∀ offset,
    placed.start < offset → offset < placed.stop → insertion offset = []
  letters : Text.SameLetters text recased
  /-- No token but a keyword changes. -/
  others : ∀ placed ∈ places, placed.token.isKeyword = false →
    recased.extract placed.start placed.stop =
      text.extract placed.start placed.stop

theorem Rewriting.of_subset {places fewer : List PlacedToken}
    {text recased : Text} {insertion : Nat → Text}
    (rewriting : Rewriting places text insertion recased)
    (subset : fewer ⊆ places) :
    Rewriting fewer text insertion recased where
  blank := rewriting.blank
  boundary := fun placed member => rewriting.boundary placed (subset member)
  letters := rewriting.letters
  others := fun placed member => rewriting.others placed (subset member)

variable {evaluator : Option Evaluator} {text recased : Text}
  {insertion : Nat → Text} {places : List PlacedToken}
  {placed : PlacedToken}

theorem placeFrom_after {offset : Nat} {stream : TokenStream}
    (starts : placed.start = text.afterBlanks offset) :
    placeFrom text offset (after [placed.token] stream).tokens =
      placed :: placeFrom text placed.stop stream.tokens := by
  simp only [after, List.singleton_append, placeFrom, ← starts]

theorem Rewriting.spelling_respelled
    (rewriting : Rewriting places text insertion recased)
    (member : placed ∈ places)
    (spelled : text.drop placed.start =
      placed.token.spelling ++ text.drop placed.stop) :
    (placed.respelled recased).spelling =
      recased.extract placed.start placed.stop := by
  rw [PlacedToken.respelled]
  split
  · next keyword =>
    exact @Token.spelling_of_isKeyword { placed.token with text := _ }
      keyword
  · next other =>
    rw [rewriting.others placed member (by simpa using other),
      extract_eq_spelling spelled]

/-- What stands behind a token still ends the same runs. -/
theorem Rewriting.stopsAlike
    (rewriting : Rewriting places text insertion recased) (offset : Nat) :
    Token.StopsAlike (text.drop offset)
      (Text.spacedFrom insertion offset (recased.drop offset)) := by
  intro runs known ends
  refine Text.stops_spacedFrom rewriting.blank ?_ ?_ offset
  · intro byte blank
    exact Token.RunClass.not_goesOn_of_isBlank known blank
  · exact ((rewriting.letters.drop offset).stops_iff
      (Token.RunClass.ignoresCase_goesOn known)).1 ends

theorem Rewriting.isLexeme
    (rewriting : Rewriting places text insertion recased)
    {line : Int}
    (spelled : text.drop placed.start =
      placed.token.spelling ++ text.drop placed.stop)
    (lexeme : Token.IsLexeme evaluator line (text.drop placed.stop)
      placed.token) :
    Token.IsLexeme evaluator line
      (Text.spacedFrom insertion placed.stop (recased.drop placed.stop))
      (placed.respelled recased) := by
  have moved := lexeme.of_stopsAlike (rewriting.stopsAlike placed.stop)
  rw [PlacedToken.respelled]
  split
  · next keyword =>
    refine moved.of_sameLetters keyword ?_
    rw [← Token.spelling_of_isKeyword keyword,
      ← extract_eq_spelling spelled]
    exact rewriting.letters.extract _ _
  · exact moved

theorem drop_eq_extract_append (text : Text) {start stop : Nat}
    (ordered : start ≤ stop) :
    text.drop start = text.extract start stop ++ text.drop stop := by
  rw [List.extract_eq_take_drop, ← Nat.add_sub_cancel' ordered,
    ← List.drop_drop, Nat.add_sub_cancel_left, List.take_append_drop]

/-- No blank has become the first byte of a token. -/
theorem Rewriting.stops_isBlank
    (rewriting : Rewriting places text insertion recased) (offset : Nat) :
    Token.Stops Token.isBlank (recased.drop (text.afterBlanks offset)) := by
  refine ((rewriting.letters.drop _).stops_iff
    Text.ignoresCase_isBlank).1 ?_
  rw [Text.drop_afterBlanks]
  exact Token.stops_dropWhile _ _

/-- Behind old and new blanks there is the token in its new spelling. -/
theorem Rewriting.dropWhile_spacedFrom
    (rewriting : Rewriting places text insertion recased)
    (member : placed ∈ places) {offset : Nat}
    (starts : placed.start = text.afterBlanks offset)
    (spelled : text.drop placed.start =
      placed.token.spelling ++ text.drop placed.stop)
    (nonempty : placed.token.spelling ≠ []) :
    (Text.spacedFrom insertion offset (recased.drop offset)).dropWhile
        Token.isBlank =
      (placed.respelled recased).spelling ++
        Text.spacedFrom insertion placed.stop
          (recased.drop placed.stop) := by
  have notBlank := rewriting.stops_isBlank offset
  have size := (rewriting.letters.extract placed.start placed.stop).length_eq
  rw [extract_eq_spelling spelled] at size
  rw [Text.dropWhile_spacedFrom rewriting.blank,
    ← rewriting.letters.afterBlanks_eq,
    rewriting.spelling_respelled member spelled]
  rw [← starts, drop_eq_extract_append recased placed.start_le_stop]
    at notBlank ⊢
  cases whole : recased.extract placed.start placed.stop with
  | nil =>
      rw [whole] at size
      exact absurd (List.eq_nil_of_length_eq_zero size) nonempty
  | cons first rest =>
      -- the insertion in front of the first byte goes with the blanks, and
      -- there is none in front of the others
      rw [whole] at notBlank size
      have stop : placed.start + 1 + rest.length = placed.stop := by
        rw [PlacedToken.stop, size, List.length_cons]
        omega
      rw [List.cons_append, Text.dropWhile_spacedFrom_cons rewriting.blank _
        (notBlank first rfl), Text.spacedFrom_append, stop,
        List.cons_append]
      intro place above below
      exact rewriting.boundary placed member place above (stop ▸ below)

theorem scanFrom_of_blanks {line : Int} {blanks : Text}
    (ended : blanks.dropWhile Token.isBlank = []) :
    scanFrom evaluator line blanks =
      ⟨[⟨.endOfText, line, []⟩], none⟩ := by
  have scan : Token.scanToken evaluator line
      (blanks.dropWhile Token.isBlank) =
        .ok ⟨⟨.endOfText, line, []⟩, []⟩ := by
    rw [ended]
    rfl
  rw [scanFrom, scanOnto_of_ok scan]
  rfl

/-- A rewritten text is read as before, from any offset between tokens. -/
theorem ReadFrom.scanFrom_spacedFrom {offset : Nat} {stream : TokenStream}
    (read : ReadFrom evaluator text offset stream)
    (faultless : stream.fault = none)
    (rewriting : Rewriting (placeFrom text offset stream.tokens) text
      insertion recased) :
    scanFrom evaluator (text.lineAt offset)
        (Text.spacedFrom insertion offset (recased.drop offset)) =
      ⟨(placeFrom text offset stream.tokens).map
        (PlacedToken.respelled recased), none⟩ := by
  -- offsets are those of the old text, from which the new one is made
  induction read with
  | @ended offset blank =>
      have sameEnd : recased.drop text.length = [] := by
        rw [rewriting.letters.length_eq, List.drop_length]
      rw [← Text.lineAt_afterBlanks, scanFrom_of_blanks, placeFrom, blank]
      · rfl
      · rw [Text.dropWhile_spacedFrom rewriting.blank,
          ← rewriting.letters.afterBlanks_eq, blank, sameEnd]
        exact List.dropWhile_eq_nil_iff.2 (rewriting.blank _)
  | failed => cases faultless
  | @token offset placed stream starts spelled lexeme others
      inductionHypothesis =>
      rw [placeFrom_after starts] at rewriting ⊢
      have rest := inductionHypothesis faultless
        (rewriting.of_subset (List.subset_cons_self _ _))
      have respelled := rewriting.isLexeme spelled lexeme
      have scan := Token.scanToken_of_isLexeme respelled
      rw [← rewriting.dropWhile_spacedFrom List.mem_cons_self starts spelled
        lexeme.spelling_ne_nil, starts, Text.lineAt_afterBlanks] at scan
      have line : text.lineAt offset + (placed.respelled recased).lineEnds =
          text.lineAt placed.stop := by
        rw [PlacedToken.lineEnds_respelled, ← Token.count_spelling _
            (Token.scanToken_of_isLexeme lexeme), PlacedToken.stop,
          Text.lineAt_add spelled, starts, Text.lineAt_afterBlanks]
        exact List.append_ne_nil_of_left_ne_nil lexeme.spelling_ne_nil _
      rw [scanFrom_of_ok scan respelled.kind_ne, line, rest]
      rfl

/-- Only keywords are spelled in a new way, all tokens are still there. -/
theorem tokenize_spaced
    (rewriting : Rewriting ((tokenize evaluator text).placed text) text
      insertion recased)
    (faultless : (tokenize evaluator text).fault = none) :
    tokenize evaluator (recased.spaced insertion) =
      (tokenize evaluator text).respelled text recased := by
  rw [respelled, faultless]
  exact (readFrom_tokenize evaluator text).scanFrom_spacedFrom faultless
    rewriting

theorem ReadFrom.respelled_self {stream : TokenStream}
    (read : ReadFrom evaluator text 0 stream) :
    stream.respelled text text = stream := by
  have unchanged : ∀ placed ∈ stream.placed text,
      placed.respelled text = placed.token := by
    intro placed member
    rw [PlacedToken.respelled]
    split
    · next keyword =>
      cases read.stands placed member with
      | ended => cases keyword
      | lexeme spelled =>
          rw [extract_eq_spelling spelled,
            Token.spelling_of_isKeyword keyword]
    · rfl
  rw [respelled, List.map_congr_left unchanged, placed,
    map_token_placeFrom]

/-- Blanks between tokens make no difference to any of them. -/
theorem tokenize_spaced_self
    (rewriting : Rewriting ((tokenize evaluator text).placed text) text
      insertion recased)
    (faultless : (tokenize evaluator text).fault = none) :
    tokenize evaluator (text.spaced insertion) =
      tokenize evaluator text := by
  have unchanged : Rewriting ((tokenize evaluator text).placed text) text
      insertion text :=
    ⟨rewriting.blank, rewriting.boundary, rfl, fun _ _ _ => rfl⟩
  rw [tokenize_spaced unchanged faultless,
    (readFrom_tokenize evaluator text).respelled_self]

end TokenStream

end FlatAsm
