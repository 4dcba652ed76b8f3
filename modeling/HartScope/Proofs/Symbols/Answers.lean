import HartScope.Symbols
import Mathlib.Data.List.Sort

/-!
What a symbol table answers.  Its functions stand in order of their starts, and those with the same start
in the order in which they were given.  So the first one that satisfies a condition starts lowest among
all that do and was given first among those that start there, and the symbol behind the functions is the
answer exactly where none of them is.
-/

namespace HartScope

namespace Symbol

/-- Of the symbols that satisfy the condition this one starts lowest, and it was given first among those
that start where it does. -/
def Leads (symbol : Symbol) (condition : Symbol → Bool) (given : List Symbol) : Prop :=
  ∃ earlier later, given = earlier ++ symbol :: later ∧ condition symbol = true ∧
    (∀ other ∈ earlier, condition other = true → symbol.start < other.start) ∧
    ∀ other ∈ later, condition other = true → symbol.start ≤ other.start

theorem startsBefore_trans (a b c : Symbol) :
    a.startsBefore b = true → b.startsBefore c = true → a.startsBefore c = true := by
  simp only [startsBefore, decide_eq_true_eq]
  exact UInt64.le_trans

theorem startsBefore_total (a b : Symbol) : (a.startsBefore b || b.startsBefore a) = true := by
  simp only [startsBefore, Bool.or_eq_true, decide_eq_true_eq]
  exact UInt64.le_total _ _

/-- The empty range of the symbol for unknown addresses contains none. -/
theorem unknown_contains (address : UInt64) : unknown.contains address = false := by
  have outside : ¬address < 0 := UInt64.not_lt.mpr (UInt64.zero_le)
  simp only [contains, unknown, outside, decide_false, Bool.and_false]

variable {symbol : Symbol} {condition : Symbol → Bool} {given : List Symbol}

/-- In the sorted list each symbol stands before those that start above it, and before those that start
where it does and were given later. -/
theorem sorted_places (given : List Symbol) :
    (given.zipIdx.mergeSort (List.zipIdxLE startsBefore)).Pairwise fun first second =>
      first.1.start < second.1.start ∨
        first.1.start = second.1.start ∧ first.2 ≤ second.2 := by
  have ordered := List.pairwise_mergeSort (List.zipIdxLE_trans startsBefore_trans)
    (List.zipIdxLE_total startsBefore_total) given.zipIdx
  refine ordered.imp fun {first second} before => ?_
  simp only [List.zipIdxLE, startsBefore, decide_eq_true_eq] at before
  split at before
  · rename_i lower
    split at before
    · rename_i upper
      exact .inr ⟨UInt64.le_antisymm lower upper, of_decide_eq_true before⟩
    · rename_i above
      exact .inl (UInt64.not_le.mp above)
  · cases before

/-- The first symbol in the sorted list that satisfies a condition, with the place at which it was given. -/
theorem exists_place_of_find? (found : (given.mergeSort startsBefore).find? condition = some symbol) :
    condition symbol = true ∧ ∃ place : Nat, given[place]? = some symbol ∧
      ∀ (other : Symbol) (position : Nat), given[position]? = some other → condition other = true →
        symbol.start < other.start ∨ symbol.start = other.start ∧ place ≤ position := by
  rw [← List.mergeSort_zipIdx, List.find?_map] at found
  obtain ⟨⟨_, place⟩, first, rfl⟩ := Option.map_eq_some_iff.mp found
  obtain ⟨satisfied, before, after, split, passed⟩ := List.find?_eq_some_iff_append.mp first
  have sorted := sorted_places given
  have permuted := List.mergeSort_perm given.zipIdx (List.zipIdxLE startsBefore)
  rw [split] at sorted permuted
  refine ⟨satisfied, place, ?_, fun other position present holds => ?_⟩
  · exact List.mk_mem_zipIdx_iff_getElem?.mp (permuted.subset (by simp))
  · have member := permuted.symm.subset (List.mk_mem_zipIdx_iff_getElem?.mpr present)
    rcases List.mem_append.mp member with front | back
    · have failed := passed _ front
      simp [holds] at failed
    · rcases List.mem_cons.mp back with same | behind
      · cases same
        exact .inr ⟨rfl, Nat.le_refl _⟩
      · exact (List.pairwise_cons.mp (List.pairwise_append.mp sorted).2.1).1 _ behind

theorem leads_of_find? (found : (given.mergeSort startsBefore).find? condition = some symbol) :
    symbol.Leads condition given := by
  obtain ⟨satisfied, place, standing, least⟩ := exists_place_of_find? found
  obtain ⟨inside, present⟩ := List.getElem?_eq_some_iff.mp standing
  refine ⟨given.take place, given.drop (place + 1), ?_, satisfied, ?_, ?_⟩
  · rw [← present, ← List.drop_eq_getElem_cons inside, List.take_append_drop]
  · intro other member holds
    obtain ⟨position, bound, same⟩ := List.mem_take_iff_getElem.mp member
    have place' := least other position (by rw [← same]; exact List.getElem?_eq_getElem _) holds
    exact place'.resolve_right (by omega)
  · intro other member holds
    obtain ⟨position, bound, same⟩ := List.mem_drop_iff_getElem.mp member
    rcases least other _ (by rw [← same]; exact List.getElem?_eq_getElem _) holds with above | level
    · exact UInt64.le_of_lt above
    · exact UInt64.le_of_eq level.1

theorem Leads.mem (leads : symbol.Leads condition given) : symbol ∈ given := by
  obtain ⟨earlier, later, rfl, _⟩ := leads
  simp

theorem Leads.start_le (leads : symbol.Leads condition given) {other : Symbol}
    (member : other ∈ given) (holds : condition other = true) : symbol.start ≤ other.start := by
  obtain ⟨earlier, later, rfl, _, before, behind⟩ := leads
  rcases List.mem_append.mp member with front | back
  · exact UInt64.le_of_lt (before other front holds)
  · rcases List.mem_cons.mp back with rfl | rest
    · exact UInt64.le_refl _
    · exact behind other rest holds

end Symbol

namespace SymbolTable

open HartScope.Symbol

theorem ofList_symbols (given : List Symbol) :
    (ofList given).symbols = given.mergeSort startsBefore := by
  rw [symbols, size, ofList, List.length_append, List.length_singleton, Nat.add_sub_cancel,
    List.take_left]

theorem ofList_lookup (given : List Symbol) (address : UInt64) :
    (ofList given).lookup address =
      ((given.mergeSort startsBefore).find? (·.contains address)).getD .unknown := by
  rw [lookup, ofList_symbols]
  simp only [ofList, List.getLast_append_singleton]

theorem lookup_leads {given : List Symbol} {address : UInt64}
    (known : ∃ symbol ∈ given, symbol.contains address = true) :
    ((ofList given).lookup address).Leads (·.contains address) given := by
  obtain ⟨symbol, member, contained⟩ := known
  cases found : (given.mergeSort startsBefore).find? (·.contains address) with
  | none =>
      have missed := List.find?_eq_none.mp found symbol (List.mem_mergeSort.mpr member)
      exact absurd contained missed
  | some symbol =>
      rw [ofList_lookup, found]
      exact leads_of_find? found

theorem lookup_eq_unknown_iff (given : List Symbol) (address : UInt64) :
    (ofList given).lookup address = .unknown ↔
      ∀ symbol ∈ given, symbol.contains address = false := by
  constructor
  · intro unknown symbol member
    by_contra contained
    obtain ⟨_, _, _, satisfied, _⟩ :=
      lookup_leads ⟨symbol, member, Bool.eq_true_of_not_eq_false contained⟩
    have outside := unknown_contains address
    simp [unknown, outside] at satisfied
  · intro missed
    have absent : (given.mergeSort startsBefore).find? (·.contains address) = none :=
      List.find?_eq_none.mpr fun symbol member =>
        Bool.not_eq_true _ ▸ missed symbol (List.mem_mergeSort.mp member)
    rw [ofList_lookup, absent]
    rfl

theorem isFunctionStart_iff (given : List Symbol) (address : UInt64) :
    (ofList given).isFunctionStart address = true ↔ ∃ symbol ∈ given, symbol.start = address := by
  simp only [isFunctionStart, ofList_symbols, List.any_eq_true, List.mem_mergeSort, beq_iff_eq]

theorem address?_eq_min? (given : List Symbol) (name : String) :
    (ofList given).address? name = ((given.filter (·.name == name)).map Symbol.start).min? := by
  rw [address?, ofList_symbols]
  cases found : (given.mergeSort startsBefore).find? (·.name == name) with
  | none =>
      have unnamed : given.filter (·.name == name) = [] :=
        List.filter_eq_nil_iff.mpr fun symbol member =>
          List.find?_eq_none.mp found symbol (List.mem_mergeSort.mpr member)
      rw [unnamed]
      rfl
  | some symbol =>
      have leads := leads_of_find? found
      have named := List.find?_some found
      refine (List.min?_eq_some_iff.mpr ⟨?_, fun start member => ?_⟩).symm
      · exact List.mem_map_of_mem (List.mem_filter.mpr ⟨leads.mem, named⟩)
      · obtain ⟨other, listed, rfl⟩ := List.mem_map.mp member
        obtain ⟨present, alike⟩ := List.mem_filter.mp listed
        exact leads.start_le present alike

/-- With distinct starts there is only one order in which a table can hold its symbols. -/
theorem ofList_eq_of_perm {given other : List Symbol} (permuted : other.Perm given)
    (distinct : (given.map Symbol.start).Nodup) : ofList other = ofList given := by
  have sorted (symbols : List Symbol) :
      (symbols.mergeSort startsBefore).Pairwise (·.start ≤ ·.start) := by
    have ordered := List.pairwise_mergeSort startsBefore_trans startsBefore_total symbols
    simpa only [startsBefore, decide_eq_true_eq] using ordered
  have same : other.mergeSort startsBefore = given.mergeSort startsBefore := by
    refine List.Perm.eq_of_pairwise ?_ (sorted other) (sorted given)
      ((List.mergeSort_perm other _).trans (permuted.trans (List.mergeSort_perm given _).symm))
    intro first second inOther inGiven below above
    exact List.inj_on_of_nodup_map distinct (permuted.subset (List.mem_mergeSort.mp inOther))
      (List.mem_mergeSort.mp inGiven) (UInt64.le_antisymm below above)
  simp only [ofList, same]

/-- Whatever symbols a table is made of, overlapping, alike or empty: an address is looked up to the symbol
that starts lowest of those that contain it, the earliest given of those that start there, and to the
unknown symbol exactly if none contains it; the function starts are the starts of the given symbols; a
name has the lowest start of the symbols of that name; and if no two symbols start alike, it does not
matter in which order they are given. -/
theorem table_answers (given : List Symbol) :
    (∀ address, (∃ symbol ∈ given, symbol.contains address = true) →
      ((ofList given).lookup address).Leads (·.contains address) given) ∧
    (∀ address, (ofList given).lookup address = .unknown ↔
      ∀ symbol ∈ given, symbol.contains address = false) ∧
    (∀ address, (ofList given).isFunctionStart address = true ↔
      ∃ symbol ∈ given, symbol.start = address) ∧
    (∀ name, (ofList given).address? name =
      ((given.filter (·.name == name)).map Symbol.start).min?) ∧
    ∀ other : List Symbol, other.Perm given → (given.map Symbol.start).Nodup →
      (∀ address, (ofList other).lookup address = (ofList given).lookup address) ∧
      (∀ address, (ofList other).isFunctionStart address = (ofList given).isFunctionStart address) ∧
      ∀ name, (ofList other).address? name = (ofList given).address? name := by
  refine ⟨fun _ => lookup_leads, lookup_eq_unknown_iff given, isFunctionStart_iff given,
    address?_eq_min? given, fun other permuted distinct => ?_⟩
  rw [ofList_eq_of_perm permuted distinct]
  exact ⟨fun _ => rfl, fun _ => rfl, fun _ => rfl⟩

/-- Two functions of one name, one function inside another, and an empty one at address zero. -/
def nestedSymbols : List Symbol :=
  [⟨"inner", 0x140, 0x180⟩, ⟨"outer", 0x400, 0x480⟩, ⟨"outer", 0x100, 0x200⟩, ⟨"empty", 0, 0⟩]

theorem nested_symbols_answered :
    (∃ symbol ∈ nestedSymbols, symbol.contains 0x150 = true) ∧
      nestedSymbols.reverse.Perm nestedSymbols ∧ (nestedSymbols.map Symbol.start).Nodup ∧
      ((ofList nestedSymbols).lookup 0x150).Leads (·.contains 0x150) nestedSymbols ∧
      (ofList nestedSymbols).lookup 0x150 = ⟨"outer", 0x100, 0x200⟩ ∧
      (ofList nestedSymbols).lookup 0 = .unknown ∧
      (ofList nestedSymbols).isFunctionStart 0 = true ∧
      (ofList nestedSymbols).address? "outer" = some 0x100 ∧
      (ofList nestedSymbols.reverse).lookup 0x150 = (ofList nestedSymbols).lookup 0x150 := by
  have known : ∃ symbol ∈ nestedSymbols, symbol.contains 0x150 = true := by decide
  have permuted : nestedSymbols.reverse.Perm nestedSymbols := List.reverse_perm _
  have distinct : (nestedSymbols.map Symbol.start).Nodup := by decide
  have outermost : (ofList nestedSymbols).lookup 0x150 = ⟨"outer", 0x100, 0x200⟩ := by
    simp [nestedSymbols, ofList_lookup, List.mergeSort, List.MergeSort.Internal.splitInTwo,
      startsBefore, contains]
  obtain ⟨leads, unknown, starts, names, orders⟩ := table_answers nestedSymbols
  exact ⟨known, permuted, distinct, leads 0x150 known, outermost, (unknown 0).mpr (by decide),
    (starts 0).mpr (by decide), (names "outer").trans (by decide), (orders _ permuted distinct).1 _⟩

end SymbolTable

end HartScope
