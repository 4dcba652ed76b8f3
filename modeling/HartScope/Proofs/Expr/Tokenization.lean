import HartScope.Proofs.Expr.Lexemes
import Mathlib.Data.String.Basic

/-!
What a text says as a list of tokens.  Between blanks it spells the tokens in order, each as long as it
can be, and what comes before a sign decides whether it is unary.  A text that has no tokens has them up
to the place where it cannot be read on.  Since no token holds a blank, the same tokens stand in any
text that keeps them apart by blanks.
-/

namespace HartScope

/-- The position at which a text cannot be read on, counted in bytes. -/
def ExprError.position? : ExprError → Option Nat
  | noMatch _ position | tokenTooLong position => some position
  | _ => none

namespace TokenKind

/-- What has come before ends no operand: it is nothing, an operator or an opening parenthesis. -/
def AwaitsOperand (previous : Option TokenKind) : Prop :=
  ∀ kind ∈ previous, kind.rank?.isSome = true ∨ kind = .lParen

/-- The operators that can be unary. -/
def signs : List TokenKind :=
  [.add, .sub, .mul]

theorem any_endsOperand_iff (previous : Option TokenKind) :
    previous.any endsOperand = false ↔ AwaitsOperand previous := by
  cases previous with
  | none => simp [AwaitsOperand]
  | some kind => cases kind <;> simp [AwaitsOperand, endsOperand, rank?]

theorem raw_after (previous : Option TokenKind) (kind : TokenKind) :
    (kind.after previous).raw = kind.raw := by
  unfold after
  split <;> cases kind <;> rfl

theorem after_isUnary_iff {kind : TokenKind} (sign : kind ∈ signs) (previous : Option TokenKind) :
    (kind.after previous).isUnary = true ↔ AwaitsOperand previous := by
  rw [← any_endsOperand_iff, after]
  cases previous.any endsOperand <;> cases kind <;> simp_all [signs, toUnary, isUnary]

/-- The rule that reads a token and what comes before it determine its kind. -/
theorem eq_after_of_isUnary_iff {kind : TokenKind} {previous : Option TokenKind}
    (unary : kind.raw ∈ signs → (kind.isUnary = true ↔ AwaitsOperand previous)) :
    kind = kind.raw.after previous := by
  rw [← any_endsOperand_iff] at unary
  unfold after
  generalize previous.any endsOperand = ends at unary ⊢
  cases ends <;> cases kind <;> simp_all [signs, toUnary, isUnary, raw]

end TokenKind

namespace Lexer

open HartScope.Expr TokenKind

theorem Lexical.sign_iff {kind : TokenKind} {text : List Char} (lexical : Lexical kind text) :
    String.ofList text ∈ ["+", "-", "*"] ↔ kind.raw ∈ signs := by
  have spelled (sign : TokenKind) (spelling : String) (fixed : sign.spelling? = some spelling) :
      String.ofList text = spelling ↔ kind.raw = sign.raw := by
    constructor
    · rintro rfl
      have other : Lexical sign text := by simpa using Lexical.spelled fixed
      exact Option.some.inj (lexical.lexeme.raw_unique other.lexeme)
    · intro same
      have other := raw_iff.mpr lexical
      rw [same, spelled_iff (sign.spelling?_raw.trans fixed)] at other
      rw [other, String.ofList_toList]
  simp only [List.mem_cons, List.not_mem_nil, or_false, signs, spelled .add "+" rfl,
    spelled .sub "-" rfl, spelled .mul "*" rfl]
  rfl

theorem Lexeme.ascii {kind : Option TokenKind} {text : List Char} (lexeme : Lexeme kind text) :
    ∀ c ∈ text, c.toNat < 0x80 := by
  intro c member
  cases kind with
  | none =>
      have blank := lexeme.2 c member
      simp only [isBlank, Bool.or_eq_true, beq_iff_eq] at blank
      rcases blank with rfl | rfl <;> decide
  | some kind =>
      have graphic := Lexical.graphic lexeme c member
      exact Nat.lt_trans graphic.2 (by decide)

/-- A character of ASCII is one byte long. -/
theorem utf8ByteSize_ofList_ascii {cs : List Char} (ascii : ∀ c ∈ cs, c.toNat < 0x80) :
    (String.ofList cs).utf8ByteSize = cs.length := by
  rw [String.utf8ByteSize_ofList]
  induction cs with
  | nil => rfl
  | cons c rest ih =>
      rw [List.forall_mem_cons] at ascii
      have small : c.val ≤ 127 := UInt32.le_iff_toNat_le.mpr (Nat.le_of_lt_succ ascii.1)
      rw [String.utf8Len_cons, ih ascii.2, Char.utf8Size_eq_one_iff.mpr small, List.length_cons]

/-- How a token stands between the kind of the token before it and the text behind it. -/
structure Fits (previous : Option TokenKind) (token : Token) (after : List Char) : Prop where
  lexical : Lexical token.kind token.text.toList
  short : token.text.utf8ByteSize < maxTokenLength
  longest : Longest token.text.toList after
  /-- The next character does not go on with a literal, a register or a name. -/
  maximal : token.kind ∈ operandKinds →
    ∀ c ∈ after.head?, ¬Lexical token.kind (token.text.push c).toList
  /-- No operator of two characters is read as two operators. -/
  whole : ∀ c ∈ after.head?, token.text.push c ∉ ["||", "&&", "<=", ">="]
  unary_iff : token.text ∈ ["+", "-", "*"] →
    (token.kind.isUnary = true ↔ AwaitsOperand previous)

/-- The text is the tokens in order with blanks between them, and each token stands as it should, between
the kind of the token before it and the text behind it. -/
inductive Spells (stands : Option TokenKind → Token → List Char → Prop) :
    Option TokenKind → List Token → List Char → Prop
  | nil {previous : Option TokenKind} : Spells stands previous [] []
  | blank {previous : Option TokenKind} {tokens : List Token} {c : Char} {rest : List Char}
      (blank : isBlank c = true) (spelled : Spells stands previous tokens rest) :
      Spells stands previous tokens (c :: rest)
  | token {previous : Option TokenKind} {token : Token} {tokens : List Token} {after : List Char}
      (stand : stands previous token after) (spelled : Spells stands (some token.kind) tokens after) :
      Spells stands previous (token :: tokens) (token.text.toList ++ after)

theorem Longest.mono {text before after : List Char} (longest : Longest text (before ++ after)) :
    Longest text before :=
  fun kind more beyond within => longest kind more beyond (within.trans (List.prefix_append _ _))

namespace Fits

variable {previous : Option TokenKind} {token : Token} {before after : List Char}

/-- Neither an operand nor an operator goes on beyond the longest lexeme. -/
theorem of_longest (lexical : Lexical token.kind token.text.toList)
    (short : token.text.utf8ByteSize < maxTokenLength) (longest : Longest token.text.toList after)
    (unary : token.text ∈ ["+", "-", "*"] →
      (token.kind.isUnary = true ↔ AwaitsOperand previous)) : Fits previous token after := by
  have next (c : Char) (follows : c ∈ after.head?) (kind : TokenKind) :
      ¬Lexical kind (token.text.push c).toList := by
    obtain ⟨rest, rfl⟩ : ∃ rest, after = c :: rest := List.head?_eq_some_iff.mp follows
    rw [String.toList_push]
    exact longest (some kind) [c] nofun ⟨rest, rfl⟩
  refine ⟨lexical, short, longest, fun _ c follows => next c follows _, ?_, unary⟩
  intro c follows member
  obtain ⟨kind, fixed⟩ : ∃ kind : TokenKind, kind.spelling? = some (token.text.push c) := by
    simp only [List.mem_cons, List.not_mem_nil, or_false] at member
    rcases member with same | same | same | same <;> rw [same]
    · exact ⟨.logicOr, rfl⟩
    · exact ⟨.logicAnd, rfl⟩
    · exact ⟨.le, rfl⟩
    · exact ⟨.ge, rfl⟩
  exact next c follows kind (.spelled fixed)

/-- What is read as a token stands as a token. -/
theorem of_read {kind : TokenKind} {text : List Char} (previous : Option TokenKind)
    (lexical : Lexical kind text) (raw : kind.raw = kind) (short : text.length < maxTokenLength)
    (longest : Longest text after) :
    Fits previous ⟨kind.after previous, String.ofList text⟩ after := by
  have accepted : Lexical (kind.after previous) text := by
    rw [← Lexical.raw_iff, raw_after]
    exact Lexical.raw_iff.mpr lexical
  have size := utf8ByteSize_ofList_ascii lexical.lexeme.ascii
  refine .of_longest ?_ ?_ ?_ fun sign => after_isUnary_iff ?_ previous
  · simpa using accepted
  · simpa [size] using short
  · simpa using longest
  · rw [← raw]
    exact lexical.sign_iff.mp sign

theorem mono (fits : Fits previous token (before ++ after)) : Fits previous token before :=
  .of_longest fits.lexical fits.short fits.longest.mono fits.unary_iff

theorem text_length (fits : Fits previous token after) :
    token.text.toList.length < maxTokenLength := by
  rw [← utf8ByteSize_ofList_ascii fits.lexical.lexeme.ascii, String.ofList_toList]
  exact fits.short

theorem kind_eq (fits : Fits previous token after) :
    token.kind = token.kind.raw.after previous := by
  refine eq_after_of_isUnary_iff fun sign => fits.unary_iff ?_
  rw [← fits.lexical.sign_iff, String.ofList_toList] at sign
  exact sign

end Fits

/-! The steps of a scan. -/

section Steps

variable (source : String) (position : Nat) (tokens : Array Token)

theorem push_cases (kind : TokenKind) (text : List Char) :
    (maxTokenLength ≤ text.length ∧
      push tokens position kind text = .error (.tokenTooLong position)) ∨
    (maxTokens ≤ tokens.size + 1 ∧ push tokens position kind text = .error .tooManyTokens) ∨
    (text.length < maxTokenLength ∧ tokens.size + 1 < maxTokens ∧
      push tokens position kind text =
        .ok (tokens.push ⟨kind.after (tokens.back?.map Token.kind), String.ofList text⟩)) := by
  unfold push
  by_cases long : maxTokenLength ≤ text.length
  · exact .inl ⟨long, if_pos long⟩
  · by_cases many : maxTokens ≤ tokens.size + 1
    · exact .inr (.inl ⟨many, by rw [if_neg long, if_pos many]⟩)
    · exact .inr (.inr ⟨by omega, by omega, by rw [if_neg long, if_neg many]⟩)

theorem scan_nil : scan source position tokens [] = .ok tokens.toList := by
  rw [scan]

theorem scan_unread {cs : List Char} (present : cs ≠ []) (unread : lexeme? cs = none) :
    scan source position tokens cs = .error (.noMatch source position) := by
  obtain ⟨c, rest, rfl⟩ := List.exists_cons_of_ne_nil present
  rw [scan]
  split <;> simp_all

theorem scan_token {kind : TokenKind} {text after : List Char}
    (read : lexeme? (text ++ after) = some (some kind, text.length)) :
    scan source position tokens (text ++ after) =
      (push tokens position kind text).bind fun tokens =>
        scan source (position + text.length) tokens after := by
  have dropped : (text ++ after).drop text.length = after := List.drop_left
  have taken : (text ++ after).take text.length = text := List.take_left
  generalize text ++ after = cs at read dropped taken ⊢
  cases cs with
  | nil => cases read
  | cons c rest =>
      rw [scan]
      split
      · simp_all
      · simp_all
      · rename_i found
        rw [read] at found
        cases found
        rw [taken, dropped]
        cases push tokens position kind text <;> rfl

/-- A run of blanks is passed over at once, which is the same as one blank after the other. -/
theorem scan_blank {c : Char} (blank : isBlank c = true) (rest : List Char) :
    scan source position tokens (c :: rest) = scan source (position + 1) tokens rest := by
  have run (c : Char) (rest : List Char) (blank : isBlank c = true) (position : Nat) :
      scan source position tokens (c :: rest) =
        scan source (position + (span isBlank rest + 1)) tokens
          (rest.drop (span isBlank rest)) := by
    have read : lexeme? (c :: rest) = some (none, span isBlank rest + 1) := by
      simp [lexeme?, rules, span, blank]
    rw [scan]
    split
    · simp_all
    · rename_i found
      rw [read] at found
      cases found
      rfl
    · simp_all
  rw [run c rest blank]
  cases rest with
  | nil => rfl
  | cons next others =>
      by_cases again : isBlank next = true
      · have longer : span isBlank (next :: others) = span isBlank others + 1 := by
          simp [span, again]
        rw [run next others again, longer, List.drop_succ_cons]
        congr 1
        omega
      · have ended : span isBlank (next :: others) = 0 := by
          simp [span, again]
        rw [ended, List.drop_zero]

theorem scan_blanks {gap : List Char} (blank : ∀ c ∈ gap, isBlank c = true) (after : List Char) :
    scan source position tokens (gap ++ after) =
      scan source (position + gap.length) tokens after := by
  induction gap generalizing position with
  | nil => rfl
  | cons c rest ih =>
      rw [List.forall_mem_cons] at blank
      rw [List.cons_append, scan_blank source position tokens blank.1, ih _ blank.2,
        List.length_cons, Nat.add_assoc, Nat.add_comm 1]

/-- A token that stands as it should is read as it stands. -/
theorem Fits.scan_eq {tokens : Array Token} {token : Token} {after : List Char}
    (fits : Fits (tokens.back?.map Token.kind) token after) (room : tokens.size + 1 < maxTokens) :
    scan source position tokens (token.text.toList ++ after) =
      scan source (position + token.text.toList.length) (tokens.push token) after := by
  have read : lexeme? (token.text.toList ++ after) =
      some (some token.kind.raw, token.text.toList.length) :=
    lexeme?_of_longest fits.lexical.lexeme fits.longest
  have short := fits.text_length
  rw [scan_token source position tokens read]
  rcases push_cases position tokens token.kind.raw token.text.toList with
    ⟨long, _⟩ | ⟨many, _⟩ | ⟨_, _, pushed⟩
  · omega
  · omega
  · rw [pushed, ← fits.kind_eq, String.ofList_toList]
    rfl

end Steps

/-- How a scan ends that has the tokens and has come to the position, in front of the text. -/
inductive Ends (source : String) (position : Nat) (tokens : List Token) :
    List Char → Except ExprError (List Token) → Prop
  | done : Ends source position tokens [] (.ok tokens)
  | noMatch {after : List Char} (present : after ≠ [])
      (unread : ∀ kind text, text <+: after → ¬Lexeme kind text) :
      Ends source position tokens after (.error (.noMatch source position))
  | tokenTooLong {kind : TokenKind} {text rest : List Char} (lexical : Lexical kind text)
      (longest : Longest text rest) (long : maxTokenLength ≤ text.length) :
      Ends source position tokens (text ++ rest) (.error (.tokenTooLong position))
  | tooManyTokens {kind : TokenKind} {text rest : List Char} (lexical : Lexical kind text)
      (longest : Longest text rest) (many : maxTokens ≤ tokens.length + 1) :
      Ends source position tokens (text ++ rest) (.error .tooManyTokens)

theorem Ends.position_eq {source : String} {position place : Nat} {tokens : List Token}
    {after : List Char} {error : ExprError} (ends : Ends source position tokens after (.error error))
    (placed : error.position? = some place) : place = position := by
  cases ends with
  | noMatch | tokenTooLong => exact (Option.some.inj placed).symm
  | tooManyTokens => cases placed

/-- What a scan does first: it ends, or passes over blanks, or reads a token. -/
theorem scan_cases (source : String) (position : Nat) (tokens : Array Token) (cs : List Char) :
    Ends source position tokens.toList cs (scan source position tokens cs) ∨
    (∃ gap rest, cs = gap ++ rest ∧ Lexeme none gap) ∨
    (∃ token rest, cs = token.text.toList ++ rest ∧ tokens.size + 1 < maxTokens ∧
      Fits (tokens.back?.map Token.kind) token rest) := by
  by_cases empty : cs = []
  · subst empty
    rw [scan_nil]
    exact .inl .done
  cases read : lexeme? cs with
  | none =>
      rw [scan_unread source position tokens empty read]
      exact .inl (.noMatch empty (lexeme?_eq_none_iff.mp read))
  | some found =>
      obtain ⟨kind, _⟩ := found
      obtain ⟨text, rest, rfl, rfl, lexeme, raw, longest⟩ := longest_of_lexeme? read
      cases kind with
      | none => exact .inr (.inl ⟨text, rest, rfl, lexeme⟩)
      | some kind =>
          rcases push_cases position tokens kind text with
            ⟨long, pushed⟩ | ⟨many, pushed⟩ | ⟨short, few, _⟩
          · rw [scan_token source position tokens read, pushed]
            exact .inl (.tokenTooLong lexeme longest long)
          · rw [scan_token source position tokens read, pushed]
            exact .inl (.tooManyTokens lexeme longest many)
          · refine .inr (.inr ⟨_, rest, ?_, few,
              .of_read _ lexeme (Option.some.inj raw) short longest⟩)
            rw [String.toList_ofList]

theorem Spells.blanks {stands : Option TokenKind → Token → List Char → Prop}
    {previous : Option TokenKind} {tokens : List Token} {gap rest : List Char}
    (blank : ∀ c ∈ gap, isBlank c = true) (spelled : Spells stands previous tokens rest) :
    Spells stands previous tokens (gap ++ rest) := by
  induction gap with
  | nil => exact spelled
  | cons c gap ih =>
      rw [List.forall_mem_cons] at blank
      exact .blank blank.1 (ih blank.2)

/-- A scan of `before ++ after` that has `tokens` already reads the tokens `new` in `before`, where they
stand as they should, and ends in front of `after`. -/
structure Scans (source : String) (position : Nat) (tokens : Array Token) (new : List Token)
    (before after : List Char) : Prop where
  ascii : ∀ c ∈ before, c.toNat < 0x80
  spelled : Spells Fits (tokens.back?.map Token.kind) new before
  few : tokens.size + new.length < maxTokens
  ends : Ends source (position + before.length) (tokens.toList ++ new) after
    (scan source position tokens (before ++ after))

namespace Scans

variable {source : String} {position : Nat} {tokens : Array Token} {new : List Token}
  {before after : List Char}

theorem of_ends (room : tokens.size < maxTokens)
    (ends : Ends source position tokens.toList after (scan source position tokens after)) :
    Scans source position tokens [] [] after :=
  ⟨List.forall_mem_nil _, .nil, room, by simpa using ends⟩

theorem blanks {gap : List Char} (lexeme : Lexeme none gap)
    (scans : Scans source (position + gap.length) tokens new before after) :
    Scans source position tokens new (gap ++ before) after where
  ascii := List.forall_mem_append.mpr ⟨lexeme.ascii, scans.ascii⟩
  spelled := scans.spelled.blanks lexeme.2
  few := scans.few
  ends := by
    rw [List.append_assoc, scan_blanks _ _ _ lexeme.2, List.length_append, ← Nat.add_assoc]
    exact scans.ends

theorem token {token : Token} (fits : Fits (tokens.back?.map Token.kind) token (before ++ after))
    (scans : Scans source (position + token.text.toList.length) (tokens.push token) new
      before after) :
    Scans source position tokens (token :: new) (token.text.toList ++ before) after where
  ascii := List.forall_mem_append.mpr ⟨fits.lexical.lexeme.ascii, scans.ascii⟩
  spelled := .token fits.mono (by simpa using scans.spelled)
  few := by
    have few := scans.few
    simp only [Array.size_push, List.length_cons] at few ⊢
    omega
  ends := by
    have few := scans.few
    have ends := scans.ends
    rw [Array.size_push] at few
    rw [Array.toList_push, List.append_assoc, List.singleton_append, Nat.add_assoc,
      ← List.length_append] at ends
    rwa [List.append_assoc, fits.scan_eq source position (by omega)]

end Scans

/-- A scan reads tokens that stand as they should, up to a place where it ends. -/
theorem exists_scans (source : String) (position : Nat) (tokens : Array Token) (cs : List Char)
    (room : tokens.size < maxTokens) :
    ∃ new before after, cs = before ++ after ∧ Scans source position tokens new before after := by
  generalize size : cs.length = length
  induction length using Nat.strongRecOn generalizing position tokens cs with
  | ind length ih =>
      rcases scan_cases source position tokens cs with
        ends | ⟨gap, rest, rfl, lexeme⟩ | ⟨token, rest, rfl, few, fits⟩
      · exact ⟨[], [], cs, rfl, .of_ends room ends⟩
      · have positive := List.length_pos_iff.mpr lexeme.ne_nil
        rw [List.length_append] at size
        obtain ⟨new, before, after, rfl, scans⟩ :=
          ih rest.length (by omega) (position + gap.length) tokens rest room rfl
        exact ⟨new, gap ++ before, after, (List.append_assoc ..).symm, scans.blanks lexeme⟩
      · have positive := List.length_pos_iff.mpr fits.lexical.lexeme.ne_nil
        rw [List.length_append] at size
        obtain ⟨new, before, after, rfl, scans⟩ :=
          ih rest.length (by omega) (position + token.text.toList.length) (tokens.push token) rest
            (by rwa [Array.size_push]) rfl
        exact ⟨token :: new, token.text.toList ++ before, after, (List.append_assoc ..).symm,
          scans.token fits⟩

theorem scan_of_spells {tokens : Array Token} {new : List Token} {cs : List Char}
    (spelled : Spells Fits (tokens.back?.map Token.kind) new cs)
    (few : tokens.size + new.length < maxTokens) (source : String) (position : Nat) :
    scan source position tokens cs = .ok (tokens.toList ++ new) := by
  generalize before : tokens.back?.map Token.kind = previous at spelled
  induction spelled generalizing position tokens with
  | nil => rw [scan_nil, List.append_nil]
  | blank blank _ ih => rw [scan_blank source position tokens blank, ih few (position + 1) before]
  | @token _ token rest _ fits _ ih =>
      subst before
      rw [List.length_cons] at few
      have fewer : (tokens.push token).size + rest.length < maxTokens := by
        rw [Array.size_push]
        omega
      rw [fits.scan_eq source position (by omega), ih fewer _ (by simp), Array.toList_push,
        List.append_assoc, List.singleton_append]

end Lexer

open Lexer

theorem tokenize_eq_ok_iff {source : String} {tokens : List Token} :
    tokenize source = .ok tokens ↔
      tokens.length < maxTokens ∧ Spells Fits none tokens source.toList := by
  constructor
  · intro read
    obtain ⟨new, before, after, split, scans⟩ := exists_scans source 0 #[] source.toList (by decide)
    have ends := scans.ends
    rw [← split, ← tokenize, read] at ends
    cases ends with
    | done =>
        rw [split, List.append_nil]
        exact ⟨by simpa using scans.few, scans.spelled⟩
  · rintro ⟨few, spelled⟩
    exact @scan_of_spells #[] tokens source.toList spelled (by simpa using few) source 0

/-- A text has tokens exactly if it spells them with blanks between them, each token being the longest
one at its place, and there are not too many.  Where a text cannot be read on, the place lies between
two characters and what stands before it has tokens. -/
theorem tokenize_reads_longest (source : String) :
    (∀ tokens, tokenize source = .ok tokens ↔
      tokens.length < maxTokens ∧ Spells Fits none tokens source.toList) ∧
    ∀ error position, tokenize source = .error error → error.position? = some position →
      ∃ before after tokens, source = before ++ after ∧ before.utf8ByteSize = position ∧
        (String.Pos.Raw.mk position).IsValid source ∧ tokenize before = .ok tokens ∧
        Ends source position tokens after.toList (.error error) := by
  refine ⟨fun _ => tokenize_eq_ok_iff, ?_⟩
  intro error position failed placed
  obtain ⟨tokens, before, after, split, scans⟩ :=
    exists_scans source 0 #[] source.toList (by decide)
  have few := scans.few
  have ends := scans.ends
  rw [← split, ← tokenize, failed] at ends
  have place := ends.position_eq placed
  have whole : source = String.ofList before ++ String.ofList after := by
    rw [← String.ofList_append, ← split, String.ofList_toList]
  have size : (String.ofList before).utf8ByteSize = position := by
    rw [utf8ByteSize_ofList_ascii scans.ascii, place, Nat.zero_add]
  refine ⟨String.ofList before, String.ofList after, tokens, whole, size, ?_, ?_, ?_⟩
  · exact String.Pos.Raw.isValid_iff_exists_append.mpr ⟨_, _, whole, by rw [← size]; rfl⟩
  · rw [tokenize_eq_ok_iff, String.toList_ofList]
    exact ⟨by simpa using few, scans.spelled⟩
  · rw [String.toList_ofList, place]
    simpa using ends

/-- No rule reads a character beyond ASCII. -/
example : tokenize "1 ||é" = .error (.noMatch "1 ||é" 4) := by
  decide +kernel

namespace Lexer

/-- Behind the token stands a blank, or nothing. -/
def Spaced (_ : Option TokenKind) (_ : Token) (after : List Char) : Prop :=
  ∀ c ∈ after.head?, isBlank c = true

/-- No token goes on beyond a blank. -/
theorem Lexical.longest_of_blank {kind : TokenKind} {text after : List Char}
    (lexical : Lexical kind text) (blank : ∀ c ∈ after.head?, isBlank c = true) :
    Longest text after := by
  rintro other more beyond ⟨rest, rfl⟩ longer
  obtain ⟨c, more, rfl⟩ := List.exists_cons_of_ne_nil beyond
  have space : isBlank c = true := blank c rfl
  cases other with
  | none =>
      obtain ⟨first, others, rfl⟩ := List.exists_cons_of_ne_nil lexical.lexeme.ne_nil
      have graphic := (lexical.graphic first List.mem_cons_self).not_blank
      rw [longer.2 first List.mem_cons_self] at graphic
      cases graphic
  | some other =>
      have graphic := (Lexical.graphic longer c (by simp)).not_blank
      rw [space] at graphic
      cases graphic

namespace Spells

variable {stands : Option TokenKind → Token → List Char → Prop} {previous : Option TokenKind}
  {token : Token} {tokens : List Token} {cs text : List Char}

theorem head (spelled : Spells stands previous (token :: tokens) cs) :
    ∃ after, stands previous token after ∧ Spells stands (some token.kind) tokens after := by
  generalize shape : token :: tokens = all at spelled
  induction spelled with
  | nil => cases shape
  | blank _ _ ih => exact ih shape
  | token stand rest =>
      cases shape
      exact ⟨_, stand, rest⟩

/-- Tokens that stand as they should in one text do so in any text that keeps them apart by blanks. -/
theorem respaced (spelled : Spells Fits previous tokens cs)
    (spaced : Spells Spaced previous tokens text) : Spells Fits previous tokens text := by
  induction spaced generalizing cs with
  | nil => exact .nil
  | blank blank _ ih => exact .blank blank (ih spelled)
  | token space _ ih =>
      obtain ⟨_, fits, later⟩ := spelled.head
      have longest := fits.lexical.longest_of_blank space
      exact .token (.of_longest fits.lexical fits.short longest fits.unary_iff) (ih later)

end Spells

theorem spaced_intercalate (previous : Option TokenKind) (tokens : List Token) :
    Spells Spaced previous tokens (" ".intercalate (tokens.map Token.text)).toList := by
  rw [String.toList_intercalate, List.map_map]
  induction tokens generalizing previous with
  | nil => exact .nil
  | cons token rest ih =>
      cases rest with
      | nil =>
          have alone : Spells Spaced previous [token] (token.text.toList ++ []) := .token nofun .nil
          simpa using alone
      | cons next others =>
          rw [List.map_cons, List.map_cons, List.intercalate_cons_cons, List.append_assoc]
          refine .token ?_ (.blank rfl (ih _))
          rintro c ⟨⟩
          rfl

end Lexer

/-- The tokens of a text are read again from their texts, joined by single spaces or kept apart by any
blanks. -/
theorem tokenize_respaced {source : String} {tokens : List Token}
    (read : tokenize source = .ok tokens) :
    tokenize (" ".intercalate (tokens.map Token.text)) = .ok tokens ∧
      ∀ text : String, Spells Spaced none tokens text.toList → tokenize text = .ok tokens := by
  obtain ⟨few, spelled⟩ := tokenize_eq_ok_iff.mp read
  have respaced (text : String) (spaced : Spells Spaced none tokens text.toList) :
      tokenize text = .ok tokens :=
    tokenize_eq_ok_iff.mpr ⟨few, spelled.respaced spaced⟩
  exact ⟨respaced _ (spaced_intercalate none tokens), respaced⟩

/-- Neighbours that only the order of the rules has kept apart. -/
theorem crowded_tokens_respaced :
    tokenize "-0xg|||*$a0" = .ok [⟨.neg, "-"⟩, ⟨.dec, "0"⟩, ⟨.ident, "xg"⟩,
      ⟨.logicOr, "||"⟩, ⟨.bitOr, "|"⟩, ⟨.deref, "*"⟩, ⟨.reg, "$a0"⟩] ∧
    tokenize "- 0 xg || | * $a0" = .ok [⟨.neg, "-"⟩, ⟨.dec, "0"⟩, ⟨.ident, "xg"⟩,
      ⟨.logicOr, "||"⟩, ⟨.bitOr, "|"⟩, ⟨.deref, "*"⟩, ⟨.reg, "$a0"⟩] := by
  have read : tokenize "-0xg|||*$a0" = .ok [⟨.neg, "-"⟩, ⟨.dec, "0"⟩, ⟨.ident, "xg"⟩,
      ⟨.logicOr, "||"⟩, ⟨.bitOr, "|"⟩, ⟨.deref, "*"⟩, ⟨.reg, "$a0"⟩] := by
    decide +kernel
  exact ⟨read, (tokenize_respaced read).1⟩

end HartScope
