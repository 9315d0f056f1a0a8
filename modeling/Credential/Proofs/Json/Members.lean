import Credential.Json.Parser
import Credential.Proofs.Except
/-!
# Credential.Proofs.Json.Members — members and keys of JSON documents

A document has distinct keys (`Json.distinctKeys`) if no object in it, at any depth, has two members of
one name. The type `Json` does not ask for this, but every text that is read gives such a document
(`distinctKeys_of_parse`), so statements about documents may assume it. In a document of this kind a
member and what look-up finds under its key are the same.
-/

namespace Credential.Json

/-! ## Look-up -/

theorem mem_of_find? {members : List (String × Json)} {key : String} {value : Json}
    (h : find? members key = some value) : (key, value) ∈ members := by
  obtain ⟨before, after, rfl, -⟩ := List.lookup_eq_some_iff.mp h
  exact List.mem_append_right _ (List.mem_cons_self)

theorem find?_of_mem {members : List (String × Json)} {key : String} {value : Json}
    (hk : (members.map (·.1)).Nodup) (h : (key, value) ∈ members) :
    find? members key = some value := by
  induction members with
  | nil => cases h
  | cons first rest ih =>
    obtain ⟨k, v⟩ := first
    rw [List.map_cons, List.nodup_cons] at hk
    rcases List.mem_cons.mp h with heq | hrest
    · cases heq
      exact List.lookup_cons_self
    · have hne : (key == k) = false := by
        rw [beq_eq_false_iff_ne]
        rintro rfl
        exact hk.1 (List.mem_map.mpr ⟨_, hrest, rfl⟩)
      simpa only [find?, List.lookup_cons, hne] using ih hk.2 hrest

theorem find?_eq_none_iff {members : List (String × Json)} {key : String} :
    find? members key = none ↔ declares members key = false := by
  rw [find?, declares, List.lookup_eq_none_iff, List.any_eq_false]
  apply forall₂_congr
  intro m _
  rw [bne_iff_ne, beq_iff_eq, ne_comm]

theorem find?_cons (k : String) (v : Json) (rest : List (String × Json)) (key : String) :
    find? ((k, v) :: rest) key = if k == key then some v else find? rest key := by
  rw [find?, List.lookup_cons, Bool.beq_comm]
  cases k == key <;> rfl

/-- Going through the members until a key is met is looking the key up. -/
theorem eq_elim_find? {β : Type} {f : List (String × Json) → β} {key : String}
    {found : Json → β}
    (hcons : ∀ k v rest, f ((k, v) :: rest) = if k == key then found v else f rest)
    (ms : List (String × Json)) : f ms = (find? ms key).elim (f []) found := by
  induction ms with
  | nil => rfl
  | cons m rest ih =>
    obtain ⟨k, v⟩ := m
    rw [hcons, find?_cons, ih]
    cases k == key <;> rfl

/-- Where keys are distinct, look-up does not depend on the order of the members. -/
theorem find?_eq_of_perm {members others : List (String × Json)} (hk : (members.map (·.1)).Nodup)
    (h : members.Perm others) (key : String) : find? members key = find? others key := by
  have hk' : (others.map (·.1)).Nodup := (h.map _).nodup_iff.mp hk
  refine Option.ext fun value => ⟨fun hfound => ?_, fun hfound => ?_⟩
  · exact find?_of_mem hk' (h.mem_iff.mp (mem_of_find? hfound))
  · exact find?_of_mem hk (h.mem_iff.mpr (mem_of_find? hfound))

theorem find?_filter (p : String → Bool) {key : String} (hp : p key = true)
    (members : List (String × Json)) : find? (members.filter (p ·.1)) key = find? members key := by
  induction members with
  | nil => rfl
  | cons first rest ih =>
    obtain ⟨k, v⟩ := first
    rw [List.filter_cons]
    split
    · rw [find?_cons, find?_cons, ih]
    · next hk =>
      have hne : (k == key) = false := by
        rw [beq_eq_false_iff_ne]
        rintro rfl
        exact hk hp
      rw [find?_cons, hne, ih]
      rfl

theorem find?_append (first rest : List (String × Json)) (key : String) :
    find? (first ++ rest) key = (find? first key).or (find? rest key) :=
  List.lookup_append

theorem declares_eq_isSome (members : List (String × Json)) (key : String) :
    declares members key = (find? members key).isSome := by
  cases hd : declares members key with
  | false => rw [find?_eq_none_iff.mpr hd, Option.isSome_none]
  | true =>
    refine (Option.isSome_iff_ne_none.mpr fun hnone => ?_).symm
    rw [find?_eq_none_iff.mp hnone] at hd
    cases hd

/-- Setting a member changes what is found under its key and nothing else. -/
theorem find?_put (members : List (String × Json)) (key other : String) (value : Json) :
    find? (put key value members) other =
      if key == other then some value else find? members other := by
  induction members with
  | nil => rw [put, find?_cons]
  | cons first rest ih =>
    obtain ⟨k, v⟩ := first
    unfold put
    split
    · next hk =>
      subst hk
      simp only [find?_cons]
      cases k == other <;> rfl
    · next hk =>
      rw [find?_cons, find?_cons, ih]
      by_cases hother : key = other
      · subst hother
        simp [hk]
      · simp [hother]

/-! ## Distinct keys -/

mutual

/-- No object in the document has two members of one name. -/
def distinctKeys : Json → Bool
  | .array items => distinctKeysItems items
  | .object members => decide (members.map (·.1)).Nodup && distinctKeysMembers members
  | _ => true
termination_by structural j => j

/-- The documents have distinct keys. -/
def distinctKeysItems : List Json → Bool
  | [] => true
  | item :: rest => distinctKeys item && distinctKeysItems rest
termination_by structural items => items

/-- The values of the members have distinct keys. -/
def distinctKeysMembers : List (String × Json) → Bool
  | [] => true
  | (_, value) :: rest => distinctKeys value && distinctKeysMembers rest
termination_by structural members => members

end

theorem distinctKeys_array {items : List Json} :
    (Json.array items).distinctKeys = true ↔ ∀ item ∈ items, item.distinctKeys = true := by
  rw [distinctKeys]
  induction items with
  | nil => simp [distinctKeysItems]
  | cons item rest ih =>
    rw [distinctKeysItems, Bool.and_eq_true, ih, List.forall_mem_cons]

theorem distinctKeysMembers_iff {members : List (String × Json)} :
    distinctKeysMembers members = true ↔ ∀ m ∈ members, m.2.distinctKeys = true := by
  induction members with
  | nil => simp [distinctKeysMembers]
  | cons m rest ih =>
    rw [distinctKeysMembers, Bool.and_eq_true, ih, List.forall_mem_cons]

theorem distinctKeys_object {members : List (String × Json)} :
    (Json.object members).distinctKeys = true ↔
      (members.map (·.1)).Nodup ∧ ∀ m ∈ members, m.2.distinctKeys = true := by
  rw [distinctKeys, Bool.and_eq_true, decide_eq_true_iff, distinctKeysMembers_iff]

theorem distinctKeys_of_find? {members : List (String × Json)} {key : String} {value : Json}
    (hd : (Json.object members).distinctKeys = true) (h : find? members key = some value) :
    value.distinctKeys = true :=
  (distinctKeys_object.mp hd).2 _ (mem_of_find? h)

theorem mem_put {members : List (String × Json)} {key : String} {value : Json}
    {m : String × Json} (h : m ∈ put key value members) : m = (key, value) ∨ m ∈ members := by
  induction members with
  | nil => exact .inl (List.mem_singleton.mp h)
  | cons first rest ih =>
    unfold put at h
    split at h
    · next hk =>
      rcases List.mem_cons.mp h with hm | hm
      · exact .inl (by rw [hm, hk])
      · exact .inr (List.mem_cons_of_mem _ hm)
    · rcases List.mem_cons.mp h with hm | hm
      · exact .inr (hm ▸ List.mem_cons_self)
      · exact (ih hm).imp_right (List.mem_cons_of_mem _)

/-- Setting a member keeps the keys distinct. -/
theorem nodup_keys_put {members : List (String × Json)} (key : String) (value : Json)
    (h : (members.map (·.1)).Nodup) : ((put key value members).map (·.1)).Nodup := by
  induction members with
  | nil => simp [put]
  | cons first rest ih =>
    rw [List.map_cons, List.nodup_cons] at h
    unfold put
    split
    · exact List.nodup_cons.mpr h
    · next hk =>
      refine List.nodup_cons.mpr ⟨?_, ih h.2⟩
      intro hmem
      obtain ⟨m, hm, hmk⟩ := List.mem_map.mp hmem
      rcases mem_put hm with rfl | hm
      · exact hk hmk.symm
      · exact h.1 (List.mem_map.mpr ⟨m, hm, hmk⟩)

theorem put_of_not_mem {members : List (String × Json)} {key : String} (value : Json)
    (h : key ∉ members.map (·.1)) : put key value members = members ++ [(key, value)] := by
  induction members with
  | nil => rfl
  | cons first rest ih =>
    obtain ⟨hfirst, hrest⟩ := not_or.mp (mt List.mem_cons.mpr h)
    rw [put, if_neg (Ne.symm hfirst), ih hrest, List.cons_append]

/-- Members of distinct names stay as they are. -/
theorem ofMembers_of_nodup {members : List (String × Json)} (h : (members.map (·.1)).Nodup) :
    ofMembers members = .object members := by
  have onto : ∀ acc rest : List (String × Json), ((acc ++ rest).map (·.1)).Nodup →
      rest.foldl (fun acc m => put m.1 m.2 acc) acc = acc ++ rest := by
    intro acc rest
    induction rest generalizing acc with
    | nil => simp
    | cons m rest ih =>
      intro hnodup
      have hnot : m.1 ∉ acc.map (·.1) := by
        rw [List.map_append, List.nodup_append] at hnodup
        intro hm
        exact hnodup.2.2 _ hm _ List.mem_cons_self rfl
      rw [List.foldl_cons, put_of_not_mem m.2 hnot, ih]
      · simp
      · simpa using hnodup
  exact congrArg Json.object (onto [] members h)

theorem distinctKeys_put {members : List (String × Json)} (key : String) {value : Json}
    (h : (Json.object members).distinctKeys = true) (hv : value.distinctKeys = true) :
    (Json.object (put key value members)).distinctKeys = true := by
  obtain ⟨hk, hd⟩ := distinctKeys_object.mp h
  refine distinctKeys_object.mpr ⟨nodup_keys_put key value hk, ?_⟩
  intro m hm
  rcases mem_put hm with rfl | hm
  · exact hv
  · exact hd m hm

/-! ## Documents that are read -/

namespace Parser

/-- What is neither an array nor an object has no keys. -/
theorem distinctKeys_of_map {α : Type} {read : Except Failure α} {f : α → Json × List Char}
    (hf : ∀ a, (f a).1.distinctKeys = true) {j : Json} {rest : List Char}
    (h : read.map f = .ok (j, rest)) : j.distinctKeys = true := by
  obtain ⟨a, -, ha⟩ := map_eq_ok.mp h
  have hfa := hf a
  rw [ha] at hfa
  exact hfa

/-- What is read with a number of steps has distinct keys, and so has what is collected on the way. -/
theorem distinctKeys_of_steps (fuel : Nat) :
    (∀ room cs j rest, value fuel room cs = .ok (j, rest) → j.distinctKeys = true) ∧
    (∀ room first acc cs j rest, (∀ item ∈ acc, item.distinctKeys = true) →
      items fuel room first acc cs = .ok (j, rest) → j.distinctKeys = true) ∧
    (∀ room first acc cs j rest, (Json.object acc).distinctKeys = true →
      members fuel room first acc cs = .ok (j, rest) → j.distinctKeys = true) := by
  induction fuel with
  | zero =>
    refine ⟨?_, ?_, ?_⟩
    · intro room cs j rest h
      simp [value, failOn] at h
    · intro room first acc cs j rest _ h
      simp [items, failOn] at h
    · intro room first acc cs j rest _ h
      simp [members, failOn] at h
  | succ fuel ih =>
    obtain ⟨ihv, ihi, ihm⟩ := ih
    refine ⟨?_, ?_, ?_⟩
    · intro room cs j rest h
      unfold value at h
      split at h
      · cases h
      · exact distinctKeys_of_map (fun _ => rfl) h
      · exact distinctKeys_of_map (fun _ => rfl) h
      · exact distinctKeys_of_map (fun _ => rfl) h
      · exact distinctKeys_of_map (fun _ => rfl) h
      · exact distinctKeys_of_map (fun _ => rfl) h
      · split at h
        · cases h
        · exact ihi _ _ _ _ _ _ (fun item hitem => absurd hitem List.not_mem_nil) h
      · split at h
        · cases h
        · exact ihm _ _ _ _ _ _ rfl h
      · split at h
        · exact distinctKeys_of_map (fun _ => rfl) h
        · cases h
    · intro room first acc cs j rest hacc h
      unfold items at h
      split at h
      · cases h
      · cases h
        exact distinctKeys_array.mpr fun item hitem => hacc item (List.mem_reverse.mp hitem)
      · -- where the next item starts does not matter
        extract_lets start at h
        clear_value start
        cases start with
        | error f => cases h
        | ok cs =>
          dsimp only at h
          split at h
          · cases h
          · next v rest hv =>
            refine ihi _ _ _ _ _ _ ?_ h
            exact List.forall_mem_cons.mpr ⟨ihv _ _ _ _ hv, hacc⟩
    · intro room first acc cs j rest hacc h
      unfold members at h
      split at h
      · cases h
      · cases h
        exact hacc
      · -- nor where the next key starts
        extract_lets key at h
        clear_value key
        cases key with
        | error f => cases h
        | ok cs =>
          dsimp only at h
          split at h
          · cases h
          · split at h
            · cases h
            · split at h
              · cases h
              · next v rest hv =>
                exact ihm _ _ _ _ _ _ (distinctKeys_put _ hacc (ihv _ _ _ _ hv)) h
            · cases h

end Parser

/-- A document that was read has distinct keys. -/
theorem distinctKeys_of_parse {text : String} {j : Json} (h : parse text = .ok j) :
    j.distinctKeys = true := by
  unfold parse at h
  extract_lets cs outcome at h
  cases hv : Parser.value (cs.length + 1) maxDepth cs with
  | error f =>
    simp [outcome, hv, bind, Except.bind] at h
  | ok read =>
    obtain ⟨doc, rest⟩ := read
    have hdoc := (Parser.distinctKeys_of_steps _).1 _ _ _ _ hv
    simp only [outcome, hv, bind, Except.bind] at h
    cases hb : Parser.skipBlanks rest with
    | nil =>
      rw [hb] at h
      cases h
      exact hdoc
    | cons c cs =>
      rw [hb] at h
      cases h

end Credential.Json
