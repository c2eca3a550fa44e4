import ThemeSheet.Literal.Members

namespace ThemeSheet.Literal

variable {α : Type}

/-- The value that is written last for a key. -/
def lastValue? (members : List (String × α)) (key : String) : Option α :=
  members.reverse.lookup key

/-- The keys in the order in which each first occurs. -/
def firstKeys : List (String × α) → List String
  | [] => []
  | (key, _) :: rest => key :: (firstKeys rest).filter (· != key)

/-- The array index that a key is, if its digits are a number. -/
def indexValue? (key : String) : Option Nat :=
  (index? key).toOption.join

/-- An order of keys in which an object lists its members: every key once, the indices by size
and then the others as they first occur. -/
structure OwnOrder (members : List (String × α)) (order : List String) : Prop where
  nodup : order.Nodup
  complete : ∀ key, key ∈ order ↔ key ∈ members.map Prod.fst
  indices_first : ∃ indices names, order = indices ++ names ∧
    (∀ key ∈ indices, (indexValue? key).isSome = true) ∧
    (indices.map fun key => (indexValue? key).getD 0).Pairwise (· ≤ ·) ∧
    names = (firstKeys members).filter fun key => (indexValue? key).isNone

theorem lookup_first (first : String) (value : α) (rest : List (String × α)) (key : String) :
    ((first, value) :: rest).lookup key = if key = first then some value else rest.lookup key := by
  by_cases h : key = first
  · simp [h]
  · simp [List.lookup_cons, beq_eq_false_iff_ne.mpr h, h]

theorem lastValue?_cons (first : String) (value : α) (rest : List (String × α)) (key : String) :
    lastValue? ((first, value) :: rest) key =
      (lastValue? rest key).or (if key = first then some value else none) := by
  rw [lastValue?, List.reverse_cons, List.lookup_append, lookup_first]
  rfl

theorem mem_firstKeys {members : List (String × α)} {key : String} :
    key ∈ firstKeys members ↔ key ∈ members.map Prod.fst := by
  induction members with
  | nil => simp [firstKeys]
  | cons member rest ih =>
    obtain ⟨first, value⟩ := member
    by_cases h : key = first <;> simp [firstKeys, ih, h]

theorem nodup_firstKeys (members : List (String × α)) : (firstKeys members).Nodup := by
  induction members with
  | nil => exact List.nodup_nil
  | cons member rest ih =>
    refine List.nodup_cons.mpr ⟨by simp, ih.filter _⟩

/-- Setting a key changes what is found for that key alone. -/
theorem lookup_put (key : String) (value : α) (members : List (String × α)) (wanted : String) :
    (put key value members).lookup wanted =
      if wanted = key then some value else members.lookup wanted := by
  induction members with
  | nil => rw [put, lookup_first]
  | cons member rest ih =>
    obtain ⟨k, v⟩ := member
    by_cases hk : k = key
    · subst hk
      by_cases h : wanted = k <;> simp [put, lookup_first, h]
    · by_cases h : wanted = k
      · subst h
        simp [put, hk]
      · simp [put, hk, lookup_first, h, ih]

/-- The loop of `merge`, entered with some members merged. -/
def mergeInto (merged members : List (String × α)) : List (String × α) :=
  members.foldl (fun merged (key, value) => put key value merged) merged

theorem lookup_mergeInto (merged members : List (String × α)) (key : String) :
    (mergeInto merged members).lookup key =
      (lastValue? members key).or (merged.lookup key) := by
  induction members generalizing merged with
  | nil => rfl
  | cons member rest ih =>
    obtain ⟨first, value⟩ := member
    change (mergeInto (put first value merged) rest).lookup key = _
    rw [ih, lookup_put, lastValue?_cons]
    by_cases h : key = first <;> simp [h]

theorem keys_mergeInto (merged members : List (String × α)) :
    (mergeInto merged members).map Prod.fst =
      merged.map Prod.fst ++
        (firstKeys members).filter fun key => !(merged.map Prod.fst).contains key := by
  induction members generalizing merged with
  | nil => simp [mergeInto, firstKeys]
  | cons member rest ih =>
    obtain ⟨first, value⟩ := member
    change (mergeInto (put first value merged) rest).map Prod.fst = _
    rw [ih, keys_put, firstKeys]
    by_cases h : first ∈ merged.map Prod.fst
    · rw [if_pos h, List.filter_cons_of_neg (by simpa using h), List.filter_filter]
      congr 1
      apply List.filter_congr
      intro key _
      by_cases he : key = first
      · subst he
        simpa using h
      · simp [he]
    · rw [if_neg h, List.filter_cons_of_pos (by simpa using h), List.filter_filter,
        List.append_assoc, List.singleton_append]
      congr 2
      apply List.filter_congr
      intro key _
      rw [Bool.eq_iff_iff]
      by_cases he : key = first <;> simp [he]

/-- Merging lists each key at its first place. -/
theorem keys_merge (members : List (String × α)) :
    (merge members).map Prod.fst = firstKeys members := by
  exact (keys_mergeInto [] members).trans (by simp)

/-- Merging keeps the last value of each key. -/
theorem lookup_merge (members : List (String × α)) (key : String) :
    (merge members).lookup key = lastValue? members key := by
  exact (lookup_mergeInto [] members key).trans (by simp)

theorem lookup_of_mem {members : List (String × α)} (h : (members.map Prod.fst).Nodup)
    {member : String × α} (hm : member ∈ members) : members.lookup member.1 = some member.2 := by
  induction members with
  | nil => cases hm
  | cons first rest ih =>
    obtain ⟨hn, hr⟩ := List.nodup_cons.mp h
    rcases List.mem_cons.mp hm with rfl | hm
    · rw [lookup_first, if_pos rfl]
    · have : member.1 ≠ first.1 := fun he => hn (he ▸ List.mem_map_of_mem hm)
      rw [lookup_first, if_neg this]
      exact ih hr hm

theorem lastValue?_of_mem_merge {members : List (String × α)} {member : String × α}
    (h : member ∈ merge members) : lastValue? members member.1 = some member.2 := by
  rw [← lookup_merge]
  exact lookup_of_mem (keys_merge members ▸ nodup_firstKeys members) h

/-- Compares members by the indices their keys are. -/
def indexLe (a b : String × α) : Bool :=
  (indexValue? a.1).getD 0 ≤ (indexValue? b.1).getD 0

theorem indexLe_trans (a b c : String × α) (hab : indexLe a b = true) (hbc : indexLe b c = true) :
    indexLe a c = true := by
  simp only [indexLe, decide_eq_true_eq] at *
  omega

theorem indexLe_total (a b : String × α) : (indexLe a b || indexLe b a) = true := by
  simp only [indexLe, Bool.or_eq_true, decide_eq_true_eq]
  omega

/-- The members whose keys are indices, by size. -/
def indexMembers (members : List (String × α)) : List (String × α) :=
  (members.filter fun member => (indexValue? member.1).isSome).mergeSort indexLe

def nameMembers (members : List (String × α)) : List (String × α) :=
  members.filter fun member => (indexValue? member.1).isNone

theorem indexValue?_eq {key : String} {index : Option Nat} (h : index? key = .ok index) :
    indexValue? key = index := by
  rw [indexValue?, h]
  rfl

theorem mapM_index {members : List (String × α)}
    (h : ∀ member ∈ members, ∃ index, index? member.1 = .ok index) :
    members.mapM (fun member => return (← index? member.1, member) :
        String × α → Except IndexFault (Option Nat × String × α)) =
      .ok (members.map fun member => (indexValue? member.1, member)) := by
  induction members with
  | nil => rfl
  | cons member rest ih =>
    obtain ⟨index, hi⟩ := h member List.mem_cons_self
    rw [List.mapM_cons, ih fun m hm => h m (List.mem_cons_of_mem _ hm), hi,
      List.map_cons, indexValue?_eq hi]
    rfl

theorem filterMap_index (members : List (String × α)) :
    ((members.map fun member => (indexValue? member.1, member)).filterMap
        fun (index, member) => index.map (·, member)) =
      (members.filter fun member => (indexValue? member.1).isSome).map
        fun member => ((indexValue? member.1).getD 0, member) := by
  induction members with
  | nil => rfl
  | cons member rest ih =>
    cases hi : indexValue? member.1 <;> simpa [hi] using ih

theorem filterMap_name (members : List (String × α)) :
    ((members.map fun member => (indexValue? member.1, member)).filterMap
        fun (index, member) => if index.isNone then some member else none) =
      nameMembers members := by
  induction members with
  | nil => rfl
  | cons member rest ih =>
    simp only [nameMembers] at ih ⊢
    cases hi : indexValue? member.1 <;> simpa [hi] using ih

/-- The members of an object in its own order. -/
def ownMembers (members : List (String × α)) : List (String × α) :=
  indexMembers (merge members) ++ nameMembers (merge members)

theorem ownKeys_eq {members : List (String × α)}
    (h : ∀ key ∈ members.map Prod.fst, ∃ index, index? key = .ok index) :
    ownKeys members = .ok (ownMembers members) := by
  have hm : ∀ member ∈ merge members, ∃ index, index? member.1 = .ok index := by
    intro member hm
    apply h
    rw [← mem_firstKeys, ← keys_merge]
    exact List.mem_map_of_mem hm
  have hs : ∀ l : List (String × α),
      ((l.map fun member => ((indexValue? member.1).getD 0, member)).mergeSort
        (fun a b => a.1 ≤ b.1)).map (·.2) = l.mergeSort indexLe := by
    intro l
    have := List.map_mergeSort (r := indexLe) (s := fun a b => a.1 ≤ b.1) (l := l)
      (f := fun member => ((indexValue? member.1).getD 0, member)) (fun _ _ _ _ => rfl)
    rw [← this, List.map_map]
    exact List.map_id _
  unfold ownKeys
  rw [mapM_index hm]
  simp only [bind, Except.bind, pure, Except.pure, filterMap_index, filterMap_name, hs]
  rfl

theorem ownMembers_perm (members : List (String × α)) :
    (ownMembers members).Perm (merge members) := by
  refine ((List.mergeSort_perm _ _).append_right _).trans ?_
  have := List.filter_append_perm (fun member => (indexValue? member.1).isSome) (merge members)
  simpa [nameMembers, Option.not_isSome] using this

theorem lastValue?_of_mem_own {members : List (String × α)} {member : String × α}
    (h : member ∈ ownMembers members) : lastValue? members member.1 = some member.2 :=
  lastValue?_of_mem_merge ((ownMembers_perm members).mem_iff.mp h)

theorem keys_nameMembers (members : List (String × α)) :
    (nameMembers members).map Prod.fst =
      (members.map Prod.fst).filter fun key => (indexValue? key).isNone := by
  rw [nameMembers, List.filter_map]
  rfl

/-- The order that is computed is an object's own. -/
theorem ownOrder_ownMembers (members : List (String × α)) :
    OwnOrder members ((ownMembers members).map Prod.fst) := by
  have hp : ((ownMembers members).map Prod.fst).Perm (firstKeys members) := by
    rw [← keys_merge]
    exact (ownMembers_perm members).map Prod.fst
  refine ⟨hp.nodup_iff.mpr (nodup_firstKeys members),
    fun key => hp.mem_iff.trans mem_firstKeys,
    (indexMembers (merge members)).map Prod.fst, (nameMembers (merge members)).map Prod.fst,
    List.map_append, ?_, ?_, ?_⟩
  · intro key hk
    obtain ⟨member, hm, rfl⟩ := List.mem_map.mp hk
    exact (List.mem_filter.mp (List.mem_mergeSort.mp hm)).2
  · rw [List.map_map, List.pairwise_map]
    exact (List.pairwise_mergeSort indexLe_trans indexLe_total _).imp fun h => by
      simpa [indexLe] using h
  · rw [keys_nameMembers, keys_merge]

/-- Stable sorting and filtering may change places. -/
theorem filter_mergeSort {β : Type} {le : β → β → Bool}
    (trans : ∀ a b c, le a b = true → le b c = true → le a c = true)
    (total : ∀ a b, (le a b || le b a) = true) (p : β → Bool) (l : List β) :
    (l.mergeSort le).filter p = (l.filter p).mergeSort le := by
  induction l with
  | nil => simp
  | cons a l ih =>
    obtain ⟨before, after, hs, hl, hb⟩ := List.mergeSort_cons trans total a l
    cases hp : p a with
    | false => simp [hs, hp, ← ih, hl]
    | true =>
      obtain ⟨before', after', hs', hl', hb'⟩ := List.mergeSort_cons trans total a (l.filter p)
      have rest_le : ∀ {front back : List β} {whole : List β},
          (a :: whole).mergeSort le = front ++ a :: back → ∀ b ∈ back, le a b = true := by
        intro front back whole h b hm
        have sorted := List.pairwise_mergeSort trans total (a :: whole)
        rw [h] at sorted
        exact (List.pairwise_cons.mp (List.pairwise_append.mp sorted).2.1).1 b hm
      have same : before' ++ after' = before.filter p ++ after.filter p := by
        rw [← hl', ← ih, hl, List.filter_append]
      have split : ∀ {front back : List β}, (∀ b ∈ front, (!le a b) = true) →
          (∀ b ∈ back, le a b = true) →
          (front ++ back).filter (!le a ·) = front ∧ (front ++ back).filter (le a ·) = back := by
        intro front back hf hk
        rw [List.filter_append, List.filter_append, List.filter_eq_self.mpr hf,
          List.filter_eq_self.mpr hk, List.filter_eq_nil_iff.mpr (by simpa using hk),
          List.filter_eq_nil_iff.mpr (by simpa using hf)]
        simp
      have hn := split hb' (rest_le hs')
      have ho := @split (before.filter p) (after.filter p)
        (fun b hm => hb b (List.mem_filter.mp hm).1)
        (fun b hm => rest_le hs b (List.mem_filter.mp hm).1)
      rw [same] at hn
      rw [List.filter_cons_of_pos hp, hs, hs', List.filter_append, List.filter_cons_of_pos hp,
        ← hn.1, ← hn.2, ho.1, ho.2]

theorem filter_put (p : String → Bool) (key : String) (value : α) (members : List (String × α)) :
    (put key value members).filter (fun member => p member.1) =
      if p key then put key value (members.filter fun member => p member.1)
      else members.filter fun member => p member.1 := by
  induction members with
  | nil => cases hp : p key <;> simp [put, hp]
  | cons member rest ih =>
    obtain ⟨k, v⟩ := member
    by_cases hk : k = key
    · subst hk
      cases hp : p k <;> simp [put, hp]
    · cases hp : p k <;> cases hq : p key <;> simp [put, hk, hp, hq, ih]

/-- What a filter of keys leaves is merged as if nothing else had been there. -/
theorem filter_merge (p : String → Bool) (members : List (String × α)) :
    (merge members).filter (fun member => p member.1) =
      merge (members.filter fun member => p member.1) := by
  have into : ∀ merged : List (String × α),
      (mergeInto merged members).filter (fun member => p member.1) =
        mergeInto (merged.filter fun member => p member.1)
          (members.filter fun member => p member.1) := by
    induction members with
    | nil => intro merged; rfl
    | cons member rest ih =>
      intro merged
      obtain ⟨key, value⟩ := member
      change (mergeInto (put key value merged) rest).filter _ = _
      rw [ih, filter_put]
      cases hp : p key <;> simp [mergeInto, hp]
  exact into []

/-- Other keys do not change the order among those a filter leaves. -/
theorem filter_ownMembers (p : String → Bool) (members : List (String × α)) :
    (ownMembers members).filter (fun member => p member.1) =
      ownMembers (members.filter fun member => p member.1) := by
  rw [ownMembers, ownMembers, List.filter_append, indexMembers, indexMembers, nameMembers,
    nameMembers, filter_mergeSort indexLe_trans indexLe_total, ← filter_merge,
    List.filter_filter, List.filter_filter, List.filter_filter, List.filter_filter]
  simp only [Bool.and_comm]

end ThemeSheet.Literal
