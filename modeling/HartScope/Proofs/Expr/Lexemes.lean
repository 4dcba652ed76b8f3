import HartScope.Proofs.Expr.Grammar
import Mathlib.Data.List.TakeWhile

/-!
What the lexical rules read.  Each kind of token has a class of texts, and a rule finds the longest text
of its class at the front.  No text of an earlier rule starts a text of a later one, so the first rule
that finds anything finds the longest text of any class.
-/

namespace HartScope

namespace TokenKind

/-- The text of a kind that has only one. -/
def spelling? : TokenKind → Option String
  | logicOr => some "||"
  | logicAnd => some "&&"
  | eq => some "=="
  | ne => some "!="
  | le => some "<="
  | ge => some ">="
  | add | pos => some "+"
  | sub | neg => some "-"
  | mul | deref => some "*"
  | div => some "/"
  | rem => some "%"
  | lParen => some "("
  | rParen => some ")"
  | lt => some "<"
  | gt => some ">"
  | bitOr => some "|"
  | bitXor => some "^"
  | bitAnd => some "&"
  | hex | dec | reg | ident => none

/-- The kind of the rule that reads a token; the rules do not tell a unary operator from a binary one. -/
def raw : TokenKind → TokenKind
  | pos => add
  | neg => sub
  | deref => mul
  | kind => kind

theorem spelling?_raw (kind : TokenKind) : kind.raw.spelling? = kind.spelling? := by
  cases kind <;> rfl

end TokenKind

namespace Lexer

open HartScope.Expr

/-- The texts of each kind of token. -/
inductive Lexical : TokenKind → List Char → Prop
  | spelled {kind : TokenKind} {spelling : String} (fixed : kind.spelling? = some spelling) :
      Lexical kind spelling.toList
  | hex {digits : List Char} (nonempty : digits ≠ [])
      (accepted : ∀ c ∈ digits, isHexDigit c = true) : Lexical .hex ('0' :: 'x' :: digits)
  | dec {digits : List Char} (nonempty : digits ≠ [])
      (accepted : ∀ c ∈ digits, c.isDigit = true) : Lexical .dec digits
  | reg {name : List Char} (nonempty : name ≠ [])
      (accepted : ∀ c ∈ name, c.isAlphanum = true) : Lexical .reg ('$' :: name)
  | ident {first : Char} {rest : List Char} (start : first.isAlpha = true ∨ first = '_')
      (accepted : ∀ c ∈ rest, isWordChar c = true) : Lexical .ident (first :: rest)

/-- What one step reads: a token, or a run of blanks. -/
def Lexeme : Option TokenKind → List Char → Prop
  | none, text => text ≠ [] ∧ ∀ c ∈ text, isBlank c = true
  | some kind, text => Lexical kind text

/-- Nothing that a step could read goes on beyond the text into what follows it. -/
def Longest (text after : List Char) : Prop :=
  ∀ kind more, more ≠ [] → more <+: after → ¬Lexeme kind (text ++ more)

/-! Every character of a token is a printable one of ASCII, and no blank. -/

def Graphic (c : Char) : Prop :=
  0x20 < c.toNat ∧ c.toNat < 0x7F

instance (c : Char) : Decidable (Graphic c) :=
  inferInstanceAs (Decidable (_ ∧ _))

theorem Graphic.not_blank {c : Char} (graphic : Graphic c) : isBlank c = false := by
  rw [Bool.eq_false_iff]
  intro blank
  simp only [isBlank, Bool.or_eq_true, beq_iff_eq] at blank
  rcases blank with rfl | rfl
  · exact absurd graphic.1 (by decide)
  · exact absurd graphic.1 (by decide)

theorem isDigit_iff {c : Char} : c.isDigit = true ↔ 48 ≤ c.toNat ∧ c.toNat ≤ 57 :=
  Char.isDigit_iff_toNat

theorem isAlpha_iff {c : Char} :
    c.isAlpha = true ↔ 65 ≤ c.toNat ∧ c.toNat ≤ 90 ∨ 97 ≤ c.toNat ∧ c.toNat ≤ 122 := by
  have upper : c.isUpper = true ↔ 65 ≤ c.toNat ∧ c.toNat ≤ 90 := decide_eq_true_iff
  have lower : c.isLower = true ↔ 97 ≤ c.toNat ∧ c.toNat ≤ 122 :=
    Bool.and_eq_true_iff.trans (and_congr decide_eq_true_iff decide_eq_true_iff)
  rw [← upper, ← lower]
  exact Bool.or_eq_true_iff

theorem graphic_of_isAlphanum {c : Char} (accepted : c.isAlphanum = true) : Graphic c := by
  rw [Char.isAlphanum, Bool.or_eq_true, isAlpha_iff, isDigit_iff] at accepted
  unfold Graphic
  omega

theorem graphic_of_isDigit {c : Char} (accepted : c.isDigit = true) : Graphic c :=
  graphic_of_isAlphanum (by rw [Char.isAlphanum, accepted, Bool.or_true])

theorem graphic_of_isWordChar {c : Char} (accepted : isWordChar c = true) : Graphic c := by
  simp only [isWordChar, Bool.or_eq_true, beq_iff_eq] at accepted
  rcases accepted with letter | rfl
  · exact graphic_of_isAlphanum letter
  · decide

theorem graphic_of_isHexDigit {c : Char} (accepted : isHexDigit c = true) : Graphic c := by
  have low : 'A'.val.toNat = 65 ∧ 'a'.val.toNat = 97 := by decide
  have high : 'F'.val.toNat = 70 ∧ 'f'.val.toNat = 102 := by decide
  have number : c.val.toNat = c.toNat := rfl
  simp only [isHexDigit, Numeral.hexDigit?, Char.le_def, UInt32.le_iff_toNat_le] at accepted
  split at accepted
  · exact graphic_of_isDigit ‹_›
  · unfold Graphic
    split at accepted
    · omega
    · split at accepted
      · omega
      · cases accepted

namespace Lexical

variable {kind : TokenKind} {text : List Char}

theorem graphic (lexical : Lexical kind text) : ∀ c ∈ text, Graphic c := by
  cases lexical with
  | @spelled _ spelling fixed =>
      have accepted : (spelling.toList.all fun c => decide (Graphic c)) = true := by
        cases kind <;> cases fixed <;> decide
      simpa using accepted
  | hex _ accepted =>
      simp only [List.forall_mem_cons]
      exact ⟨by decide, by decide, fun c member => graphic_of_isHexDigit (accepted c member)⟩
  | dec _ accepted => exact fun c member => graphic_of_isDigit (accepted c member)
  | reg _ accepted =>
      rw [List.forall_mem_cons]
      exact ⟨by decide, fun c member => graphic_of_isAlphanum (accepted c member)⟩
  | ident start accepted =>
      rw [List.forall_mem_cons]
      refine ⟨?_, fun c member => graphic_of_isWordChar (accepted c member)⟩
      rcases start with letter | rfl
      · exact graphic_of_isAlphanum (by rw [Char.isAlphanum, letter, Bool.true_or])
      · decide

theorem spelled_iff {spelling : String} (fixed : kind.spelling? = some spelling) :
    Lexical kind text ↔ text = spelling.toList := by
  constructor
  · intro lexical
    cases lexical with
    | spelled other =>
        rw [other, Option.some.injEq] at fixed
        rw [fixed]
    | hex | dec | reg | ident => cases fixed
  · rintro rfl
    exact .spelled fixed

/-- A unary operator is spelled as the binary one. -/
theorem raw_iff : Lexical kind.raw text ↔ Lexical kind text := by
  cases spelled : kind.spelling? with
  | some spelling => rw [spelled_iff spelled, spelled_iff (kind.spelling?_raw.trans spelled)]
  | none =>
      have same : kind.raw = kind := by
        revert spelled
        cases kind <;> decide
      rw [same]

end Lexical

/-- The rule gives the length of the longest accepted text at the front. -/
structure Rule.Finds (rule : Rule) (accepted : List Char → Prop) : Prop where
  found : ∀ cs, rule cs ≠ 0 →
    ∃ text rest, cs = text ++ rest ∧ text.length = rule cs ∧ accepted text
  longest : ∀ text rest, accepted text → text.length ≤ rule (text ++ rest)

theorem span_finds (accepts : Char → Bool) :
    Rule.Finds (span accepts) fun text => text ≠ [] ∧ ∀ c ∈ text, accepts c = true where
  found cs positive := by
    refine ⟨cs.takeWhile accepts, cs.dropWhile accepts, List.takeWhile_append_dropWhile.symm, rfl,
      ?_, fun c member => List.mem_takeWhile_imp member⟩
    rintro empty
    exact positive (by rw [span, empty, List.length_nil])
  longest text rest accepted := by
    rw [span, List.takeWhile_append_of_pos accepted.2, List.length_append]
    exact Nat.le_add_right _ _

theorem literal_finds {kind : TokenKind} {spelling : String}
    (fixed : kind.spelling? = some spelling) : Rule.Finds (literal spelling) (Lexical kind) where
  found cs positive := by
    by_cases matched : spelling.toList.isPrefixOf cs
    · obtain ⟨rest, rfl⟩ := List.isPrefixOf_iff_prefix.mp matched
      exact ⟨_, rest, rfl, by simp [literal, String.length_toList], .spelled fixed⟩
    · exact absurd (if_neg matched) positive
  longest text rest accepted := by
    rw [(Lexical.spelled_iff fixed).mp accepted, literal,
      if_pos (List.isPrefixOf_iff_prefix.mpr (List.prefix_append _ _)), String.length_toList]

/-- A mark followed by a run of accepted characters. -/
theorem marked_found {accepts : Char → Bool} {cs : List Char} {length : Nat}
    (positive : marked length (span accepts cs) ≠ 0) :
    ∃ text rest, cs = text ++ rest ∧ length + text.length = marked length (span accepts cs) ∧
      text ≠ [] ∧ ∀ c ∈ text, accepts c = true := by
  have run : span accepts cs ≠ 0 := by
    intro none
    exact positive (if_pos none)
  obtain ⟨text, rest, split, size, accepted⟩ := (span_finds accepts).found cs run
  exact ⟨text, rest, split, by rw [marked, if_neg run, size], accepted⟩

theorem marked_longest {accepts : Char → Bool} {text : List Char} (length : Nat) (rest : List Char)
    (nonempty : text ≠ []) (accepted : ∀ c ∈ text, accepts c = true) :
    length + text.length ≤ marked length (span accepts (text ++ rest)) := by
  have run := (span_finds accepts).longest text rest ⟨nonempty, accepted⟩
  have positive := List.length_pos_iff.mpr nonempty
  rw [marked, if_neg (by omega)]
  omega

theorem hexRule_finds : Rule.Finds hexRule (Lexical .hex) where
  found cs positive := by
    unfold hexRule at positive ⊢
    split at positive
    · obtain ⟨digits, rest, rfl, size, nonempty, accepted⟩ := marked_found positive
      refine ⟨'0' :: 'x' :: digits, rest, rfl, ?_, .hex nonempty accepted⟩
      rw [← size, List.length_cons, List.length_cons]
      omega
    · exact absurd rfl positive
  longest text rest accepted := by
    cases accepted with
    | spelled fixed => cases fixed
    | hex nonempty accepted =>
        have run := marked_longest 2 rest nonempty accepted
        simp only [List.cons_append, hexRule, List.length_cons]
        omega

theorem regRule_finds : Rule.Finds regRule (Lexical .reg) where
  found cs positive := by
    unfold regRule at positive ⊢
    split at positive
    · obtain ⟨name, rest, rfl, size, nonempty, accepted⟩ := marked_found positive
      refine ⟨'$' :: name, rest, rfl, ?_, .reg nonempty accepted⟩
      rw [← size, List.length_cons, Nat.add_comm]
    · exact absurd rfl positive
  longest text rest accepted := by
    cases accepted with
    | spelled fixed => cases fixed
    | reg nonempty accepted =>
        have run := marked_longest 1 rest nonempty accepted
        simp only [List.cons_append, regRule, List.length_cons]
        omega

theorem decimal_finds : Rule.Finds (span Char.isDigit) (Lexical .dec) where
  found cs positive := by
    obtain ⟨text, rest, split, size, nonempty, accepted⟩ := (span_finds _).found cs positive
    exact ⟨text, rest, split, size, .dec nonempty accepted⟩
  longest text rest accepted := by
    cases accepted with
    | spelled fixed => cases fixed
    | dec nonempty accepted => exact (span_finds _).longest text rest ⟨nonempty, accepted⟩

theorem identRule_finds : Rule.Finds identRule (Lexical .ident) where
  found cs positive := by
    unfold identRule at positive ⊢
    split at positive
    · rename_i first others
      split at positive
      · rename_i start
        obtain ⟨text, rest, split, size, nonempty, accepted⟩ := (span_finds _).found _ positive
        obtain ⟨head, tail, rfl⟩ := List.exists_cons_of_ne_nil nonempty
        obtain ⟨rfl, rfl⟩ := List.cons.inj split
        rw [if_pos start]
        refine ⟨_, rest, rfl, size, .ident ?_ (List.forall_mem_cons.mp accepted).2⟩
        simpa using start
      · exact absurd rfl positive
    · exact absurd rfl positive
  longest text rest accepted := by
    cases accepted with
    | spelled fixed => cases fixed
    | @ident first name start accepted =>
        have word : isWordChar first = true := by
          rcases start with letter | rfl
          · simp [isWordChar, Char.isAlphanum, letter]
          · rfl
        have run := (span_finds isWordChar).longest (first :: name) rest
          ⟨nofun, List.forall_mem_cons.mpr ⟨word, accepted⟩⟩
        rw [List.cons_append] at run ⊢
        rwa [identRule, if_pos (by simpa using start)]

theorem rules_find {kind : Option TokenKind} {rule : Rule} (member : (kind, rule) ∈ rules) :
    rule.Finds (Lexeme kind) := by
  revert member
  suffices all : ∀ entry ∈ rules, entry.2.Finds (Lexeme entry.1) from all (kind, rule)
  simp only [rules, List.forall_mem_cons]
  exact ⟨span_finds isBlank, literal_finds rfl, literal_finds rfl, literal_finds rfl,
    literal_finds rfl, literal_finds rfl, literal_finds rfl, literal_finds rfl, literal_finds rfl,
    literal_finds rfl, literal_finds rfl, literal_finds rfl, literal_finds rfl, literal_finds rfl,
    literal_finds rfl, literal_finds rfl, literal_finds rfl, literal_finds rfl, literal_finds rfl,
    hexRule_finds, decimal_finds, regRule_finds, identRule_finds, List.forall_mem_nil _⟩

/-- The kinds of lexemes that start alike. -/
inductive Family where
  | blank
  | symbol
  | numeral
  | register
  | name
deriving DecidableEq

namespace Family

/-- The family of what starts with a character. -/
def ofChar (c : Char) : Family :=
  if isBlank c then blank
  else if c.isDigit then numeral
  else if c = '$' then register
  else if c.isAlpha || c == '_' then name
  else symbol

def ofKind : Option TokenKind → Family
  | none => blank
  | some .hex | some .dec => numeral
  | some .reg => register
  | some .ident => name
  | some _ => symbol

theorem ofChar_letter {c : Char} (start : c.isAlpha = true ∨ c = '_') : ofChar c = name := by
  rcases start with letter | rfl
  · have graphic : Graphic c :=
      graphic_of_isAlphanum (by rw [Char.isAlphanum, letter, Bool.true_or])
    have noDigit : c.isDigit = false := by
      rw [Bool.eq_false_iff, ne_eq, isDigit_iff]
      rw [isAlpha_iff] at letter
      omega
    have noMark : c ≠ '$' := by
      rintro rfl
      cases letter
    simp [ofChar, graphic.not_blank, noDigit, noMark, letter]
  · rfl

end Family

/-- The first character tells the family. -/
theorem Lexeme.family {kind : Option TokenKind} {text : List Char} (lexeme : Lexeme kind text) :
    text.head?.map Family.ofChar = some (Family.ofKind kind) := by
  cases kind with
  | none =>
      obtain ⟨nonempty, blank⟩ := lexeme
      obtain ⟨first, rest, rfl⟩ := List.exists_cons_of_ne_nil nonempty
      simp [Family.ofChar, Family.ofKind, blank first List.mem_cons_self]
  | some kind =>
      cases lexeme with
      | spelled fixed => cases kind <;> cases fixed <;> decide
      | hex | reg => rfl
      | dec nonempty accepted =>
          obtain ⟨first, rest, rfl⟩ := List.exists_cons_of_ne_nil nonempty
          have digit := accepted first List.mem_cons_self
          have plain := (graphic_of_isDigit digit).not_blank
          simp [Family.ofChar, Family.ofKind, plain, digit]
      | ident start => exact congrArg some (Family.ofChar_letter start)

theorem Lexeme.ne_nil {kind : Option TokenKind} {text : List Char} (lexeme : Lexeme kind text) :
    text ≠ [] := by
  rintro rfl
  cases lexeme.family

theorem Lexical.lexeme {kind : TokenKind} {text : List Char} (lexical : Lexical kind text) :
    Lexeme (some kind) text :=
  lexical

/-- No text of the earlier class is a text of the later one, or starts one. -/
def Precedes (earlier later : Option TokenKind) : Prop :=
  ∀ text more, Lexeme earlier text → ¬Lexeme later (text ++ more)

theorem precedes_of_family {earlier later : Option TokenKind}
    (apart : Family.ofKind earlier ≠ Family.ofKind later) : Precedes earlier later := by
  intro text more first second
  obtain ⟨head, tail, rfl⟩ := List.exists_cons_of_ne_nil first.ne_nil
  exact apart (Option.some.inj (first.family.symm.trans second.family))

theorem precedes_of_spelling {earlier later : TokenKind} {first second : String}
    (fixed : earlier.spelling? = some first) (other : later.spelling? = some second)
    (apart : ¬first.toList <+: second.toList) : Precedes (some earlier) (some later) := by
  intro text more spelled longer
  rw [Lexeme, Lexical.spelled_iff fixed] at spelled
  rw [Lexeme, Lexical.spelled_iff other, spelled] at longer
  exact apart ⟨more, longer⟩

/-- The mark of a hexadecimal numeral is no digit. -/
theorem hex_precedes_dec : Precedes (some .hex) (some .dec) := by
  intro text more first second
  have digits : ∀ c ∈ text ++ more, c.isDigit = true := by
    generalize text ++ more = longer at second
    cases second with
    | spelled fixed => cases fixed
    | dec _ accepted => exact accepted
  cases first with
  | spelled fixed => cases fixed
  | hex => exact absurd (digits 'x' (by simp)) (by decide)

/-- The kinds are of two families, or have spellings of which the first does not start the second, or are
the two kinds of numerals. -/
def Apart (earlier later : Option TokenKind) : Prop :=
  Family.ofKind earlier ≠ Family.ofKind later ∨
    (∃ first ∈ earlier.bind TokenKind.spelling?, ∃ second ∈ later.bind TokenKind.spelling?,
      ¬first.toList <+: second.toList) ∨
    earlier = some .hex ∧ later = some .dec

instance (earlier later : Option TokenKind) : Decidable (Apart earlier later) :=
  inferInstanceAs (Decidable (_ ∨ _ ∨ _))

theorem rules_apart : (rules.map Prod.fst).Pairwise Apart := by
  decide

theorem Apart.precedes {earlier later : Option TokenKind} (apart : Apart earlier later) :
    Precedes earlier later := by
  rcases apart with family | ⟨first, spelled, second, other, distinct⟩ | ⟨rfl, rfl⟩
  · exact precedes_of_family family
  · obtain ⟨kind, rfl, fixed⟩ := Option.bind_eq_some_iff.mp spelled
    obtain ⟨word, rfl, spelling⟩ := Option.bind_eq_some_iff.mp other
    exact precedes_of_spelling fixed spelling distinct
  · exact hex_precedes_dec

theorem rules_precede {kind : Option TokenKind} {rule : Rule}
    {earlier later : List (Option TokenKind × Rule)}
    (split : rules = earlier ++ (kind, rule) :: later) :
    (∀ entry ∈ earlier, Precedes entry.1 kind) ∧ ∀ entry ∈ later, Precedes kind entry.1 := by
  have apart := List.pairwise_map.mp rules_apart
  rw [split, List.pairwise_append, List.pairwise_cons] at apart
  obtain ⟨_, ⟨behind, _⟩, before⟩ := apart
  exact ⟨fun entry member => (before entry member _ List.mem_cons_self).precedes,
    fun entry member => (behind entry member).precedes⟩

/-- Whatever is a lexeme is one that a rule reads. -/
theorem Lexeme.exists_rule {kind : Option TokenKind} {text : List Char}
    (lexeme : Lexeme kind text) :
    Lexeme (kind.map TokenKind.raw) text ∧ ∃ rule, (kind.map TokenKind.raw, rule) ∈ rules := by
  have listed : kind.map TokenKind.raw ∈ rules.map Prod.fst := by
    cases kind with
    | none => decide
    | some kind => cases kind <;> decide
  obtain ⟨⟨_, rule⟩, member, rfl⟩ := List.mem_map.mp listed
  refine ⟨?_, rule, member⟩
  cases kind with
  | none => exact lexeme
  | some kind => exact Lexical.raw_iff.mpr lexeme

theorem lexeme?_eq_some_iff {cs : List Char} {kind : Option TokenKind} {length : Nat} :
    lexeme? cs = some (kind, length) ↔
      ∃ earlier rule later, rules = earlier ++ (kind, rule) :: later ∧ rule cs = length ∧
        length ≠ 0 ∧ ∀ entry ∈ earlier, entry.2 cs = 0 := by
  rw [lexeme?, List.findSome?_eq_some_iff]
  constructor
  · rintro ⟨earlier, ⟨read, rule⟩, later, split, found, before⟩
    by_cases empty : rule cs = 0
    · simp [empty] at found
    · simp only [if_neg empty, Option.some.injEq, Prod.mk.injEq] at found
      obtain ⟨rfl, rfl⟩ := found
      refine ⟨earlier, rule, later, split, rfl, empty, fun entry member => ?_⟩
      simpa using before entry member
  · rintro ⟨earlier, rule, later, split, rfl, positive, before⟩
    refine ⟨earlier, (kind, rule), later, split, by simp [positive], fun entry member => ?_⟩
    simp [before entry member]

/-- A rule finds nothing that goes on beyond the longest lexeme. -/
theorem Longest.found_within {text after : List Char} (longest : Longest text after)
    {kind : Option TokenKind} {rule : Rule} (member : (kind, rule) ∈ rules)
    (positive : rule (text ++ after) ≠ 0) :
    ∃ found more, text = found ++ more ∧ found.length = rule (text ++ after) ∧
      Lexeme kind found := by
  obtain ⟨found, rest, split, size, lexeme⟩ := (rules_find member).found _ positive
  rcases List.append_eq_append_iff.mp split with ⟨more, rfl, rfl⟩ | ⟨more, rfl, rfl⟩
  · have exhausted : more = [] := by
      by_contra beyond
      exact longest kind more beyond (List.prefix_append more rest) lexeme
    subst exhausted
    exact ⟨text, [], (List.append_nil text).symm, by simpa using size, by simpa using lexeme⟩
  · exact ⟨found, more, rfl, size, lexeme⟩

theorem lexeme?_of_longest {kind : Option TokenKind} {text after : List Char}
    (lexeme : Lexeme kind text) (longest : Longest text after) :
    lexeme? (text ++ after) = some (kind.map TokenKind.raw, text.length) := by
  obtain ⟨lexeme, rule, member⟩ := lexeme.exists_rule
  obtain ⟨earlier, later, split⟩ := List.append_of_mem member
  have least := (rules_find member).longest text after lexeme
  have positive := List.length_pos_iff.mpr lexeme.ne_nil
  rw [lexeme?_eq_some_iff]
  refine ⟨earlier, rule, later, split, ?_, by omega, fun entry before => ?_⟩
  · obtain ⟨found, more, shape, size, _⟩ := longest.found_within member (by omega)
    have total := congrArg List.length shape
    rw [List.length_append] at total
    omega
  · by_contra early
    have listed : (entry.1, entry.2) ∈ rules := split ▸ List.mem_append_left _ before
    obtain ⟨found, more, rfl, _, shorter⟩ := longest.found_within listed early
    exact (rules_precede split).1 entry before found more shorter lexeme

/-- No text belongs to two rules. -/
theorem Lexeme.raw_unique {first second : Option TokenKind} {text : List Char}
    (one : Lexeme first text) (other : Lexeme second text) :
    first.map TokenKind.raw = second.map TokenKind.raw := by
  have alone : Longest text [] := fun _ _ beyond within =>
    absurd (List.prefix_nil.mp within) beyond
  have read := (lexeme?_of_longest one alone).symm.trans (lexeme?_of_longest other alone)
  exact congrArg Prod.fst (Option.some.inj read)

/-- What is read at the front of a text is the longest lexeme there. -/
theorem longest_of_lexeme? {cs : List Char} {kind : Option TokenKind} {length : Nat}
    (read : lexeme? cs = some (kind, length)) :
    ∃ text after, cs = text ++ after ∧ text.length = length ∧ Lexeme kind text ∧
      kind.map TokenKind.raw = kind ∧ Longest text after := by
  obtain ⟨earlier, rule, later, split, measured, positive, before⟩ := lexeme?_eq_some_iff.mp read
  have member : (kind, rule) ∈ rules := split ▸ List.mem_append_right _ List.mem_cons_self
  obtain ⟨text, after, rfl, size, lexeme⟩ := (rules_find member).found cs (by omega)
  have longest : Longest text after := by
    rintro other more beyond ⟨rest, rfl⟩ longer
    obtain ⟨accepted, longRule, listed⟩ := longer.exists_rule
    have least := (rules_find listed).longest _ rest accepted
    have extra := List.length_pos_iff.mpr beyond
    rw [List.append_assoc, List.length_append] at least
    rw [split, List.mem_append, List.mem_cons, Prod.mk.injEq] at listed
    rcases listed with first | ⟨_, rfl⟩ | last
    · have none : longRule (text ++ (more ++ rest)) = 0 := before _ first
      omega
    · omega
    · exact (rules_precede split).2 _ last text more lexeme accepted
  have raw := (lexeme?_of_longest lexeme longest).symm.trans read
  exact ⟨text, after, rfl, size.trans measured, lexeme, congrArg Prod.fst (Option.some.inj raw),
    longest⟩

theorem lexeme?_eq_none_iff {cs : List Char} :
    lexeme? cs = none ↔ ∀ kind text, text <+: cs → ¬Lexeme kind text := by
  constructor
  · rintro silent kind text ⟨rest, rfl⟩ lexeme
    obtain ⟨accepted, rule, member⟩ := lexeme.exists_rule
    have least := (rules_find member).longest text rest accepted
    have positive := List.length_pos_iff.mpr accepted.ne_nil
    have unread : rule (text ++ rest) = 0 := by
      simpa using List.findSome?_eq_none_iff.mp silent _ member
    omega
  · intro unread
    cases read : lexeme? cs with
    | none => rfl
    | some lexeme =>
        obtain ⟨text, after, rfl, _, lexeme, _⟩ := longest_of_lexeme? read
        exact absurd lexeme (unread _ text (List.prefix_append text after))

end Lexer

end HartScope
