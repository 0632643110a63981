import Symbolizer.Lookup
import Symbolizer.Proofs.Outcomes

/-! # Answers of searches

A search goes through its items in order. An item without an answer leads on to the
next; the first one with an answer or an error decides. What is reported meanwhile has
no part in the answer.
-/

namespace Symbolizer.Lookup

variable {α β : Type}

/-- Where all values that are found agree, any of them is the first. -/
theorem findSome?_eq_some_of_agree {value : α → Option β} {items : List α} {b : β}
    (hexists : ∃ a ∈ items, value a = some b)
    (hagree : ∀ a ∈ items, ∀ c, value a = some c → c = b) : items.findSome? value = some b := by
  cases hfound : items.findSome? value with
  | none =>
      obtain ⟨a, ha, hvalue⟩ := hexists
      rw [List.findSome?_eq_none_iff.mp hfound a ha] at hvalue
      cases hvalue
  | some c =>
      obtain ⟨a, ha, hvalue⟩ := List.exists_of_findSome?_eq_some hfound
      rw [hagree a ha c hvalue]

/-- Where only one item is of a kind, it is the first. -/
theorem find?_eq_some_of_agree {p : α → Prop} [DecidablePred p] {items : List α} {a : α}
    (ha : a ∈ items) (hp : p a) (hagree : ∀ b ∈ items, p b → b = a) :
    (items.find? fun b => p b) = some a := by
  cases hfound : items.find? fun b => p b with
  | none => exact absurd (decide_eq_true hp) (List.find?_eq_none.mp hfound a ha)
  | some b =>
      have hb := List.find?_some hfound
      rw [hagree b (List.mem_of_find?_eq_some hfound) (of_decide_eq_true hb)]

/-- Where values are found for the items of a kind, the first of these items decides. -/
theorem findSome?_eq_map_find? {f : α → Option β} {p : α → Prop} [DecidablePred p]
    {value : α → β} {items : List α}
    (h : ∀ a ∈ items, f a = if p a then some (value a) else none) :
    items.findSome? f = (items.find? fun a => p a).map value := by
  induction items with
  | nil => rfl
  | cons a items ih =>
      rw [List.findSome?_cons, h a List.mem_cons_self, List.find?_cons,
        ih fun b hb => h b (List.mem_cons_of_mem _ hb)]
      by_cases ha : p a
      · simp [ha]
      · simp [ha]

/-- What is known of all items can be used of those that a list is split into. -/
theorem exists_split_congr {items : List α} {P P' Q Q' : α → Prop}
    (hbefore : ∀ a ∈ items, (P a ↔ P' a)) (hfound : ∀ a ∈ items, (Q a ↔ Q' a)) :
    (∃ before a behind, items = before ++ a :: behind ∧ (∀ other ∈ before, P other) ∧ Q a) ↔
      ∃ before a behind, items = before ++ a :: behind ∧ (∀ other ∈ before, P' other) ∧ Q' a := by
  refine exists_congr fun before => exists_congr fun a => exists_congr fun behind =>
    and_congr_right fun hitems => and_congr (forall₂_congr fun other hother => ?_) ?_
  · exact hbefore other (hitems ▸ List.mem_append_left _ hother)
  · exact hfound a (hitems ▸ List.mem_append_right _ List.mem_cons_self)

theorem findSome?_flatMap {γ : Type} (value : α → Option β) (g : γ → List α) (sources : List γ) :
    (sources.flatMap g).findSome? value = sources.findSome? fun c => (g c).findSome? value := by
  induction sources with
  | nil => rfl
  | cons c sources ih =>
      rw [List.flatMap_cons, List.findSome?_append, ih, List.findSome?_cons]
      cases (g c).findSome? value <;> rfl

theorem answer_decode (answer : Except Dwarf.DecodeError α) :
    (decode answer).answer = answer.mapError .format := rfl

theorem answer_decode_ok {answer : Except Dwarf.DecodeError α} {a : α} (h : answer = .ok a) :
    (decode answer).answer = .ok a := by
  rw [answer_decode, h]
  rfl

/-- A step that succeeds hands its value to what follows. -/
theorem answer_bind_of_ok {first : Lookup α} {a : α} (h : first.answer = .ok a)
    (next : α → Lookup β) : (first >>= next).answer = (next a).answer := by
  rw [answer_bind, h]
  rfl

theorem answer_bind_of_error {first : Lookup α} {e : LookupError} (h : first.answer = .error e)
    (next : α → Lookup β) : (first >>= next).answer = .error e := by
  rw [answer_bind, h]
  rfl

theorem answer_orNotFound_some {found : Lookup (Option α)} {a : α}
    (h : found.answer = .ok (some a)) : (orNotFound found).answer = .ok a :=
  answer_bind_of_ok h _

theorem answer_orNotFound_none {found : Lookup (Option α)} (h : found.answer = .ok none) :
    (orNotFound found).answer = .error .notFound :=
  answer_bind_of_ok h _

theorem answer_orNotFound_error {found : Lookup (Option α)} {e : LookupError}
    (h : found.answer = .error e) : (orNotFound found).answer = .error e :=
  answer_bind_of_error h _

theorem answer_orNotFound_congr {found other : Lookup (Option α)}
    (h : found.answer = other.answer) : (orNotFound found).answer = (orNotFound other).answer := by
  rw [orNotFound, orNotFound, answer_bind, answer_bind, h]

theorem answer_orNotFound_of_ok {found : Lookup (Option α)} {a? : Option α}
    (h : found.answer = .ok a?) : (orNotFound found).answer = a?.elim (.error .notFound) .ok := by
  cases a? with
  | none => exact answer_orNotFound_none h
  | some a => exact answer_orNotFound_some h

section FirstOf

variable {f : α → Lookup (Option β)}

theorem answer_firstOf_cons_none {a : α} {items : List α} (h : (f a).answer = .ok none) :
    (firstOf f (a :: items)).answer = (firstOf f items).answer :=
  answer_bind_of_ok h _

/-- Items without an answer are passed over. -/
theorem answer_firstOf_append {before items : List α}
    (hbefore : ∀ a ∈ before, (f a).answer = .ok none) :
    (firstOf f (before ++ items)).answer = (firstOf f items).answer := by
  induction before with
  | nil => rfl
  | cons a before ih =>
      rw [List.cons_append, answer_firstOf_cons_none (hbefore a List.mem_cons_self)]
      exact ih fun other hother => hbefore other (List.mem_cons_of_mem _ hother)

theorem answer_firstOf_some {before behind : List α} {a : α} {b : β}
    (hbefore : ∀ other ∈ before, (f other).answer = .ok none) (h : (f a).answer = .ok (some b)) :
    (firstOf f (before ++ a :: behind)).answer = .ok (some b) := by
  rw [answer_firstOf_append hbefore]
  exact answer_bind_of_ok h _

theorem answer_firstOf_error {before behind : List α} {a : α} {e : LookupError}
    (hbefore : ∀ other ∈ before, (f other).answer = .ok none) (h : (f a).answer = .error e) :
    (firstOf f (before ++ a :: behind)).answer = .error e := by
  rw [answer_firstOf_append hbefore]
  exact answer_bind_of_error h _

theorem answer_firstOf_none {items : List α} (h : ∀ a ∈ items, (f a).answer = .ok none) :
    (firstOf f items).answer = .ok none := by
  have hall : (firstOf f (items ++ [])).answer = _ := answer_firstOf_append h
  rwa [List.append_nil] at hall

/-- Where no item is an error, the search is one for the first item with an answer. -/
theorem answer_firstOf_of_ok {value : α → Option β} {items : List α}
    (h : ∀ a ∈ items, (f a).answer = .ok (value a)) :
    (firstOf f items).answer = .ok (items.findSome? value) := by
  cases hfound : items.findSome? value with
  | none =>
      apply answer_firstOf_none
      intro a ha
      rw [h a ha, List.findSome?_eq_none_iff.mp hfound a ha]
  | some b =>
      obtain ⟨before, a, behind, rfl, ha, hbefore⟩ := List.findSome?_eq_some_iff.mp hfound
      apply answer_firstOf_some
      · intro other hother
        rw [h other (List.mem_append_left _ hother), hbefore other hother]
      · rw [h a (List.mem_append_right _ List.mem_cons_self), ha]

/-- What comes second is searched where nothing is found before. -/
theorem answer_firstOf_append_bind (first second : List α) :
    (firstOf f (first ++ second)).answer = (firstOf f first).answer >>= fun found? =>
      found?.elim (firstOf f second).answer fun b => .ok (some b) := by
  -- An error would be the answer; short of that an item decides or leads on.
  induction first with
  | nil => rfl
  | cons a first ih =>
      rw [List.cons_append, firstOf, firstOf, answer_bind, answer_bind]
      cases (f a).answer with
      | error e => rfl
      | ok own =>
          cases own with
          | none => exact ih
          | some b => rfl

theorem answer_firstOf_append_of_ok {first : List α} {found? : Option β}
    (h : (firstOf f first).answer = .ok found?) (second : List α) :
    (firstOf f (first ++ second)).answer =
      found?.elim (firstOf f second).answer fun b => .ok (some b) := by
  rw [answer_firstOf_append_bind, h]
  rfl

theorem answer_firstOf_flatMap {γ : Type} {g : γ → List α} {value : γ → Option β}
    {sources : List γ} (h : ∀ c ∈ sources, (firstOf f (g c)).answer = .ok (value c)) :
    (firstOf f (sources.flatMap g)).answer = .ok (sources.findSome? value) := by
  induction sources with
  | nil => rfl
  | cons c sources ih =>
      rw [List.flatMap_cons, answer_firstOf_append_of_ok (h c List.mem_cons_self),
        ih fun other hother => h other (List.mem_cons_of_mem _ hother), List.findSome?_cons]
      cases value c <;> rfl

theorem firstOf_map {γ : Type} (g : γ → α) (sources : List γ) :
    firstOf f (sources.map g) = firstOf (fun c => f (g c)) sources := by
  induction sources with
  | nil => rfl
  | cons c sources ih => rw [List.map_cons, firstOf, firstOf, ih]

/-- Items that would lead on can as well be left out. -/
theorem answer_firstOf_filter {keep : α → Bool} {items : List α}
    (h : ∀ a ∈ items, keep a = false → (f a).answer = .ok none) :
    (firstOf f (items.filter keep)).answer = (firstOf f items).answer := by
  induction items with
  | nil => rfl
  | cons a items ih =>
      have hrest := ih fun other hother => h other (List.mem_cons_of_mem _ hother)
      cases hkeep : keep a with
      | false =>
          rw [List.filter_cons_of_neg (Bool.not_eq_true _ ▸ hkeep), hrest,
            answer_firstOf_cons_none (h a List.mem_cons_self hkeep)]
      | true =>
          rw [List.filter_cons_of_pos hkeep, firstOf, firstOf, answer_bind, answer_bind]
          cases (f a).answer with
          | error e => rfl
          | ok own =>
              cases own with
              | none => exact hrest
              | some b => rfl

end FirstOf

section Search

variable {xs : Dwarf.Decoded α} {f : α → Lookup (Option β)}

theorem answer_search_some {b : β} (h : (firstOf f xs.items).answer = .ok (some b)) :
    (search xs f).answer = .ok (some b) :=
  answer_bind_of_ok h _

theorem answer_search_error {e : LookupError} (h : (firstOf f xs.items).answer = .error e) :
    (search xs f).answer = .error e :=
  answer_bind_of_error h _

/-- A sequence without a fault is searched like its items. -/
theorem answer_search_of_fault_eq_none (f : α → Lookup (Option β)) (hfault : xs.fault = none) :
    (search xs f).answer = (firstOf f xs.items).answer := by
  cases h : (firstOf f xs.items).answer with
  | error e => exact answer_search_error h
  | ok found =>
      cases found with
      | some b => exact answer_search_some h
      | none =>
          refine (answer_bind_of_ok h _).trans ?_
          rw [hfault]
          rfl

/-- What is wrong with a sequence counts where none of its items decides. -/
theorem answer_search_eq_bind (xs : Dwarf.Decoded α) (f : α → Lookup (Option β)) :
    (search xs f).answer = (firstOf f xs.items).answer >>= fun found? =>
      found?.elim (xs.fault.elim (.ok none) fun e => .error (.format e)) fun b => .ok (some b) := by
  rw [search, answer_bind]
  cases (firstOf f xs.items).answer with
  | error e => rfl
  | ok found? =>
      cases found? with
      | some b => rfl
      | none => cases xs.fault <;> rfl

theorem answer_search_one (a : α) (f : α → Lookup (Option β)) :
    (search (.one a) f).answer = (f a).answer := by
  rw [answer_search_eq_bind, Dwarf.Decoded.one, firstOf, answer_bind]
  cases (f a).answer with
  | error e => rfl
  | ok found? => cases found? <;> rfl

theorem answer_search_append (first second : Dwarf.Decoded α) (f : α → Lookup (Option β)) :
    (search (first.append second) f).answer = (search first f).answer >>= fun found? =>
      found?.elim (search second f).answer fun b => .ok (some b) := by
  rw [answer_search_eq_bind first]
  cases hfault : first.fault with
  | some e =>
      rw [Dwarf.Decoded.append, hfault, answer_search_eq_bind, hfault]
      cases (firstOf f first.items).answer with
      | error e => rfl
      | ok found? => cases found? <;> rfl
  | none =>
      rw [Dwarf.Decoded.append, hfault, answer_search_eq_bind, answer_firstOf_append_bind,
        answer_search_eq_bind]
      cases (firstOf f first.items).answer with
      | error e => rfl
      | ok found? => cases found? <;> rfl

/-- What stands in place of items is searched in one search for each of them. -/
theorem answer_search_flatMap {γ : Type} (xs : Dwarf.Decoded γ) (g : γ → Dwarf.Decoded α)
    (f : α → Lookup (Option β)) :
    (search (xs.flatMap g) f).answer = (search xs fun c => search (g c) f).answer := by
  obtain ⟨items, fault⟩ := xs
  rw [Dwarf.Decoded.flatMap]
  induction items with
  | nil => cases fault <;> rfl
  | cons c items ih =>
      rw [Dwarf.Decoded.flatMapItems, answer_search_append, ih]
      simp only [answer_search_eq_bind ⟨_, fault⟩, firstOf, answer_bind]
      cases (search (g c) f).answer with
      | error e => rfl
      | ok found? => cases found? <;> rfl

theorem answer_search_of_ok {value : α → Option β} (hfault : xs.fault = none)
    (h : ∀ a ∈ xs.items, (f a).answer = .ok (value a)) :
    (search xs f).answer = .ok (xs.items.findSome? value) := by
  rw [answer_search_of_fault_eq_none f hfault, answer_firstOf_of_ok h]

/-- Items that were made from others are searched by what they were made from. -/
theorem answer_search_map {γ : Type} {g : γ → α} {value : γ → Option β} {sources : List γ}
    (h : ∀ c ∈ sources, (f (g c)).answer = .ok (value c)) :
    (search ⟨sources.map g, none⟩ f).answer = .ok (sources.findSome? value) := by
  rw [answer_search_of_fault_eq_none f rfl, firstOf_map, answer_firstOf_of_ok h]

end Search

section Inversion

variable {xs : Dwarf.Decoded α} {f : α → Lookup (Option β)} {items : List α}

theorem answer_bind_eq_ok_iff {first : Lookup α} {next : α → Lookup β} {b : β} :
    (first >>= next).answer = .ok b ↔ ∃ a, first.answer = .ok a ∧ (next a).answer = .ok b := by
  rw [answer_bind, Except.bind_eq_ok_iff]

theorem answer_bind_eq_error_iff {first : Lookup α} {next : α → Lookup β} {e : LookupError} :
    (first >>= next).answer = .error e ↔
      first.answer = .error e ∨ ∃ a, first.answer = .ok a ∧ (next a).answer = .error e := by
  rw [answer_bind, Except.bind_eq_error_iff]

theorem answer_decode_eq_ok_iff {answer : Except Dwarf.DecodeError α} {a : α} :
    (decode answer).answer = .ok a ↔ answer = .ok a := by
  rw [answer_decode, Except.mapError_eq_ok_iff]

theorem answer_orNotFound_eq_ok_iff {found : Lookup (Option α)} {a : α} :
    (orNotFound found).answer = .ok a ↔ found.answer = .ok (some a) := by
  refine ⟨fun h => ?_, answer_orNotFound_some⟩
  obtain ⟨own, hfound, hown⟩ := answer_bind_eq_ok_iff.mp h
  cases own with
  | none => cases hown
  | some b =>
      cases hown
      exact hfound

theorem answer_orNotFound_eq_error_iff {found : Lookup (Option α)} {e : LookupError}
    (he : e ≠ .notFound) : (orNotFound found).answer = .error e ↔ found.answer = .error e := by
  refine ⟨fun h => ?_, answer_orNotFound_error⟩
  rcases answer_bind_eq_error_iff.mp h with hfound | ⟨own, _, hown⟩
  · exact hfound
  · cases own with
    | none => exact absurd (Except.error.inj hown).symm he
    | some b => cases hown

/-- What is found is the answer of an item, and those before it have none. -/
theorem answer_firstOf_eq_some_iff {b : β} : (firstOf f items).answer = .ok (some b) ↔
    ∃ before a behind, items = before ++ a :: behind ∧
      (∀ other ∈ before, (f other).answer = .ok none) ∧ (f a).answer = .ok (some b) := by
  constructor
  · intro h
    induction items with
    | nil => cases h
    | cons a items ih =>
        obtain ⟨own, ha, hrest⟩ := answer_bind_eq_ok_iff.mp h
        cases own with
        | some c =>
            cases hrest
            exact ⟨[], a, items, rfl, List.forall_mem_nil _, ha⟩
        | none =>
            obtain ⟨before, found, behind, rfl, hbefore, hfound⟩ := ih hrest
            exact ⟨a :: before, found, behind, rfl, List.forall_mem_cons.mpr ⟨ha, hbefore⟩, hfound⟩
  · rintro ⟨before, a, behind, rfl, hbefore, ha⟩
    exact answer_firstOf_some hbefore ha

theorem answer_firstOf_eq_none_iff :
    (firstOf f items).answer = .ok none ↔ ∀ a ∈ items, (f a).answer = .ok none := by
  refine ⟨fun h => ?_, answer_firstOf_none⟩
  induction items with
  | nil => exact List.forall_mem_nil _
  | cons a items ih =>
      obtain ⟨own, ha, hrest⟩ := answer_bind_eq_ok_iff.mp h
      cases own with
      | some c => cases hrest
      | none => exact List.forall_mem_cons.mpr ⟨ha, ih hrest⟩

/-- An error is that of an item, and those before it have no answer. -/
theorem answer_firstOf_eq_error_iff {e : LookupError} : (firstOf f items).answer = .error e ↔
    ∃ before a behind, items = before ++ a :: behind ∧
      (∀ other ∈ before, (f other).answer = .ok none) ∧ (f a).answer = .error e := by
  constructor
  · intro h
    induction items with
    | nil => cases h
    | cons a items ih =>
        rcases answer_bind_eq_error_iff.mp h with ha | ⟨own, ha, hrest⟩
        · exact ⟨[], a, items, rfl, List.forall_mem_nil _, ha⟩
        · cases own with
          | some c => cases hrest
          | none =>
              obtain ⟨before, found, behind, rfl, hbefore, hfound⟩ := ih hrest
              exact ⟨a :: before, found, behind, rfl, List.forall_mem_cons.mpr ⟨ha, hbefore⟩,
                hfound⟩
  · rintro ⟨before, a, behind, rfl, hbefore, ha⟩
    exact answer_firstOf_error hbefore ha

theorem answer_search_eq_some_iff {b : β} :
    (search xs f).answer = .ok (some b) ↔ (firstOf f xs.items).answer = .ok (some b) := by
  refine ⟨fun h => ?_, answer_search_some⟩
  obtain ⟨own, hitems, hrest⟩ := answer_bind_eq_ok_iff.mp h
  cases own with
  | some c =>
      cases hrest
      exact hitems
  | none =>
      cases hfault : xs.fault with
      | none =>
          rw [hfault] at hrest
          cases hrest
      | some e =>
          rw [hfault] at hrest
          cases hrest

/-- Nothing is found only in a sequence that has been read to its end. -/
theorem answer_search_eq_none_iff : (search xs f).answer = .ok none ↔
    xs.fault = none ∧ ∀ a ∈ xs.items, (f a).answer = .ok none := by
  constructor
  · intro h
    obtain ⟨own, hitems, hrest⟩ := answer_bind_eq_ok_iff.mp h
    cases own with
    | some c => cases hrest
    | none =>
        refine ⟨?_, answer_firstOf_eq_none_iff.mp hitems⟩
        cases hfault : xs.fault with
        | none => rfl
        | some e =>
            rw [hfault] at hrest
            cases hrest
  · rintro ⟨hfault, hnone⟩
    rw [answer_search_of_fault_eq_none f hfault]
    exact answer_firstOf_none hnone

/-- What a search finds is the first value of its items, as far as their answers tell values. -/
theorem findSome?_of_answer_firstOf {value : α → Option β} {found : Option β}
    (hvalue : ∀ a ∈ items, ∀ own, (f a).answer = .ok own → value a = own)
    (h : (firstOf f items).answer = .ok found) : items.findSome? value = found := by
  cases found with
  | none =>
      rw [List.findSome?_eq_none_iff]
      intro a ha
      exact hvalue a ha none (answer_firstOf_eq_none_iff.mp h a ha)
  | some b =>
      obtain ⟨before, a, behind, rfl, hbefore, ha⟩ := answer_firstOf_eq_some_iff.mp h
      refine List.findSome?_eq_some_iff.mpr ⟨before, a, behind, rfl, ?_, fun other hother => ?_⟩
      · exact hvalue a (List.mem_append_right _ List.mem_cons_self) _ ha
      · exact hvalue other (List.mem_append_left _ hother) none (hbefore other hother)

theorem findSome?_of_answer_search {value : α → Option β} {found : Option β}
    (hvalue : ∀ a ∈ xs.items, ∀ own, (f a).answer = .ok own → value a = own)
    (h : (search xs f).answer = .ok found) : xs.items.findSome? value = found := by
  apply findSome?_of_answer_firstOf hvalue
  cases found with
  | none => exact answer_firstOf_eq_none_iff.mpr (answer_search_eq_none_iff.mp h).2
  | some b => exact answer_search_eq_some_iff.mp h

end Inversion

end Symbolizer.Lookup
