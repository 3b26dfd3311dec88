/-
Joining mappings.

Setting a key again keeps its place, so the order of a joined mapping mixes the
keys of both sides, and it has to be said which order that is. One fact settles
it: to set a key that is there already can be moved in front of whatever is set
in between (`insert_insertAll`). From that, joining in steps gives the same
entries in the same order however the steps are grouped (`union_insertAll`).

A joined mapping is then told at once (`entries_union`): first the keys of the
left side in their order, each with the value of the right side if that has one,
and then what only the right side has, in its order.
-/
import RoutePattern.Proofs.Sameness

set_option autoImplicit false

namespace RoutePattern.Captures

/-! ## One key set twice, and two keys -/

theorem keys_insert (c : Captures) (k : Key) (v : Value) :
    (c.insert k v).keys = if k ∈ c.keys then c.keys else c.keys ++ [k] :=
  keys_upsert k _ c.entries

theorem mem_keys_insert_self (c : Captures) (k : Key) (v : Value) : k ∈ (c.insert k v).keys :=
  mem_keys_iff.2 ⟨v, get?_insert_self c k v⟩

/-- Of two values for one key the later one stays. -/
theorem insert_insert (c : Captures) (k : Key) (v w : Value) :
    (c.insert k v).insert k w = c.insert k w := by
  obtain ⟨es⟩ := c
  simp only [insert, Captures.mk.injEq]
  induction es with
  | nil => simp [upsert]
  | cons e es ih =>
      by_cases he : e.1 = k
      · simp [upsert, he]
      · simp only [upsert, if_neg he, ih]

/-- A key that is there keeps its place, so it does not matter when it is set. -/
theorem insert_insert_of_mem {c : Captures} {k l : Key} (hk : k ∈ c.keys) (hne : l ≠ k)
    (v w : Value) : (c.insert l w).insert k v = (c.insert k v).insert l w := by
  obtain ⟨es⟩ := c
  simp only [keys] at hk
  simp only [insert, Captures.mk.injEq]
  induction es with
  | nil => exact absurd hk List.not_mem_nil
  | cons e es ih =>
      obtain ⟨m, u⟩ := e
      by_cases hmk : m = k
      · have hkl : k ≠ l := fun e => hne e.symm
        simp [upsert, hmk, hkl]
      · have hes : k ∈ es.map Prod.fst := by
          rcases List.mem_cons.1 hk with e | hes
          · exact absurd e.symm hmk
          · exact hes
        by_cases hml : m = l
        · simp [upsert, hml, hne]
        · simp only [upsert, if_neg hmk, if_neg hml, ih hes]

/-- A key that is there can be set before others are. -/
theorem insert_insertAll {c : Captures} {k : Key} {es : List Entry} (hk : k ∈ c.keys)
    (hes : k ∉ es.map Prod.fst) (v : Value) :
    (c.insertAll es).insert k v = (c.insert k v).insertAll es := by
  induction es generalizing c with
  | nil => rfl
  | cons e es ih =>
      obtain ⟨hne, hrest⟩ := not_or.1 (fun h => hes (List.mem_cons.2 h))
      have hk' : k ∈ (c.insert e.1 e.2).keys := by
        rw [keys_insert]
        split
        · exact hk
        · exact List.mem_append_left _ hk
      rw [insertAll_cons, insertAll_cons, ih hk' hrest,
        insert_insert_of_mem hk fun e' => hne e'.symm]

/-! ## Joining -/

/-- Where a key is, it stands between entries that do not have it. -/
theorem exists_entries_eq {c : Captures} (h : c.keys.Nodup) {k : Key} (hk : k ∈ c.keys) :
    ∃ es w fs, c.entries = es ++ (k, w) :: fs ∧ k ∉ es.map Prod.fst ∧ k ∉ fs.map Prod.fst := by
  obtain ⟨⟨l, w⟩, he, rfl⟩ := List.mem_map.1 hk
  obtain ⟨es, fs, heq⟩ := List.append_of_mem he
  rw [keys, heq, List.map_append, List.map_cons] at h
  obtain ⟨-, hfs, hdisjoint⟩ := List.nodup_append.1 h
  refine ⟨es, w, fs, heq, fun hmem => ?_, (List.nodup_cons.1 hfs).1⟩
  exact hdisjoint _ hmem _ List.mem_cons_self rfl

/-- A key set on the right is set last. -/
theorem union_insert (c : Captures) {d : Captures} (h : d.keys.Nodup) (k : Key) (v : Value) :
    c.union (d.insert k v) = (c.union d).insert k v := by
  by_cases hk : k ∈ d.keys
  · obtain ⟨es, w, fs, heq, hes, hfs⟩ := exists_entries_eq h hk
    have hins : (d.insert k v).entries = es ++ (k, v) :: fs := by
      rw [insert, heq, upsert_append hes, upsert, if_pos rfl]
    -- on both sides the key is set before what stands behind it on the right
    rw [union, union, hins, heq, insertAll_append, insertAll_append, insertAll_cons,
      insertAll_cons, insert_insertAll (mem_keys_insert_self _ _ _) hfs, insert_insert]
  · rw [union, entries_insert_of_not_mem hk, insertAll_append]
    rfl

/-- Entries set on the right are set last, **in their order**. -/
theorem union_insertAll (c : Captures) {d : Captures} (h : d.keys.Nodup) (es : List Entry) :
    c.union (d.insertAll es) = (c.union d).insertAll es := by
  induction es generalizing d with
  | nil => rfl
  | cons e es ih =>
      rw [insertAll_cons, insertAll_cons, ih (nodup_insert h e.1 e.2), union_insert c h]

/-- To set entries one by one is to join the mapping that they make. -/
theorem union_ofList (c : Captures) (es : List Entry) : c.union (ofList es) = c.insertAll es :=
  union_insertAll c nodup_keys_empty es

theorem ofList_append (es fs : List Entry) : ofList (es ++ fs) = (ofList es).union (ofList fs) := by
  rw [union_ofList]
  exact insertAll_append empty es fs

/-- Joining in steps gives the same entries **in the same order** however the steps are grouped. -/
theorem union_assoc (a : Captures) {b : Captures} (hb : b.keys.Nodup) (c : Captures) :
    (a.union b).union c = a.union (b.union c) :=
  (union_insertAll a hb c.entries).symm

/-! ## What a joined mapping holds -/

theorem get?_union (a : Captures) {b : Captures} (hb : b.keys.Nodup) (k : Key) :
    (a.union b).get? k = (b.get? k).or (a.get? k) :=
  get?_insertAll hb a k

/-- The keys on the left stay where they are, and the new ones follow. -/
theorem keys_insertAll {es : List Entry} (h : (es.map Prod.fst).Nodup) (c : Captures) :
    (c.insertAll es).keys = c.keys ++ (es.map Prod.fst).filter fun k => k ∉ c.keys := by
  induction es generalizing c with
  | nil => exact (List.append_nil _).symm
  | cons e es ih =>
      obtain ⟨he, hes⟩ := List.nodup_cons.1 h
      rw [insertAll_cons, ih hes, keys_insert, List.map_cons]
      by_cases hk : e.1 ∈ c.keys
      · rw [if_pos hk, List.filter_cons_of_neg (by simpa using hk)]
      · -- the new key is not one of those that follow
        have hrest : (es.map Prod.fst).filter (fun k => k ∉ c.keys ++ [e.1]) =
            (es.map Prod.fst).filter fun k => k ∉ c.keys := by
          refine List.filter_congr fun k hm => ?_
          have hne : k ≠ e.1 := fun e' => he (e' ▸ hm)
          simp [hne]
        rw [if_neg hk, List.filter_cons_of_pos (by simpa using hk), hrest, List.append_assoc]
        rfl

/-- Values that are changed key by key are found changed. -/
theorem lookup_map_values (f : Key → Value → Value) (es : List Entry) (k : Key) :
    (es.map fun e => (e.1, f e.1 e.2)).lookup k = (es.lookup k).map (f k) := by
  induction es with
  | nil => rfl
  | cons e es ih =>
      rw [List.map_cons, lookup_entry_cons, lookup_entry_cons, ih]
      split
      · next hk => rw [hk]; rfl
      · rfl

theorem keys_filterKeys (c : Captures) (want : Key → Bool) :
    (c.filterKeys want).keys = c.keys.filter want :=
  List.filter_map.symm

/-- A mapping is known by its keys in their order and by what they give. -/
theorem eq_of_get?_eq {c d : Captures} (hc : c.keys.Nodup) (hkeys : c.keys = d.keys)
    (hget : ∀ k, c.get? k = d.get? k) : c = d :=
  eq_of_same hc hkeys ((same_iff_get?_eq hc (hkeys ▸ hc)).2 hget)

/-- First the keys on the left with the values that are theirs now, and then what is **only on the
right, in its order**. -/
theorem entries_union {a b : Captures} (ha : a.keys.Nodup) (hb : b.keys.Nodup) :
    (a.union b).entries = a.entries.map (fun e => (e.1, (b.get? e.1).getD e.2)) ++
      b.entries.filter fun e => e.1 ∉ a.keys := by
  let left := a.entries.map fun e => (e.1, (b.get? e.1).getD e.2)
  let right := b.filterKeys fun k => k ∉ a.keys
  have hkeys : (a.union b).keys = (⟨left ++ right.entries⟩ : Captures).keys := by
    have hleft : left.map Prod.fst = a.keys := List.map_map
    have hright : right.keys = b.keys.filter fun k => k ∉ a.keys := b.keys_filterKeys _
    calc (a.union b).keys
        = a.keys ++ b.keys.filter (fun k => k ∉ a.keys) := keys_insertAll hb a
      _ = left.map Prod.fst ++ right.keys := by rw [hleft, hright]
      _ = (⟨left ++ right.entries⟩ : Captures).keys := List.map_append.symm
  have hget : ∀ k, (a.union b).get? k = (⟨left ++ right.entries⟩ : Captures).get? k := by
    intro k
    have hleft : left.lookup k = (a.get? k).map fun v => (b.get? k).getD v :=
      lookup_map_values (fun l v => (b.get? l).getD v) a.entries k
    have hright : right.get? k = if k ∉ a.keys then b.get? k else none := by
      simpa only [decide_eq_true_eq] using b.get?_filterKeys (fun l => decide (l ∉ a.keys)) k
    have hjoined : (⟨left ++ right.entries⟩ : Captures).get? k = (left.lookup k).or (right.get? k) :=
      List.lookup_append
    rw [get?_union a hb, hjoined, hleft, hright]
    by_cases hk : k ∈ a.keys
    · obtain ⟨v, hv⟩ := mem_keys_iff.1 hk
      rw [hv, if_neg (by simpa using hk)]
      cases b.get? k <;> rfl
    · rw [get?_eq_none hk, if_pos hk, Option.or_none]
      rfl
  exact congrArg entries (eq_of_get?_eq (nodup_insertAll ha _) hkeys hget)

/-! ## The laws of joining -/

theorem empty_union {a : Captures} (ha : a.keys.Nodup) : empty.union a = a :=
  congrArg mk (entries_ofList ha)

theorem union_empty (a : Captures) : a.union empty = a := rfl

theorem union_self {a : Captures} (ha : a.keys.Nodup) : a.union a = a := by
  refine eq_of_get?_eq (nodup_insertAll ha _) ?_ fun k => ?_
  · have hnone : a.keys.filter (fun k => k ∉ a.keys) = [] :=
      List.filter_eq_nil_iff.2 fun k hk => by simpa using hk
    rw [union, keys_insertAll ha]
    exact (congrArg (a.keys ++ ·) hnone).trans (List.append_nil _)
  · rw [get?_union a ha, Option.or_self]

/-- Mappings that share no key can be joined either way round. -/
theorem union_same_of_disjoint {a b : Captures} (ha : a.keys.Nodup) (hb : b.keys.Nodup)
    (h : ∀ k ∈ a.keys, k ∉ b.keys) : a.union b ≈ b.union a := by
  refine (same_iff_get?_eq (nodup_insertAll ha _) (nodup_insertAll hb _)).2 fun k => ?_
  change (a.union b).get? k = (b.union a).get? k
  rw [get?_union a hb, get?_union b ha]
  by_cases hk : k ∈ a.keys
  · rw [get?_eq_none (h k hk), Option.none_or, Option.or_none]
  · rw [get?_eq_none hk, Option.none_or, Option.or_none]

/-- Joining is an **ordered monoid in which the right side wins**: a key has the value of the right
side if that has one, and the entries are those of the left side in their places, then what only the
right side has. Grouping does not count, the empty mapping changes nothing on either side, and joining
twice is joining once. Without a common key the sides can be exchanged, up to order. So captures set
in a location one after the other are set together, and the text is the same. -/
theorem union_ordered_monoid {a b : Captures} (ha : Arises a) (hb : Arises b) (c : Captures) :
    (∀ k, (a.union b).get? k = if k ∈ b.keys then b.get? k else a.get? k) ∧
    (a.union b).entries = a.entries.map (fun e => (e.1, (b.get? e.1).getD e.2)) ++
      b.entries.filter (fun e => e.1 ∉ a.keys) ∧
    (a.union b).union c = a.union (b.union c) ∧
    empty.union a = a ∧ a.union empty = a ∧ a.union a = a ∧
    ((∀ k ∈ a.keys, k ∉ b.keys) → a.union b ≈ b.union a) ∧
    ∀ l : Location, (l.set b).set c = l.set (b.union c) ∧
      ((l.set b).set c).text = (l.set (b.union c)).text := by
  have hset : ∀ l : Location, (l.set b).set c = l.set (b.union c) := fun l =>
    congrArg (Location.mk l.template) (union_assoc l.captures hb.nodup c)
  refine ⟨fun k => ?_, entries_union ha.nodup hb.nodup, union_assoc a hb.nodup c,
    empty_union ha.nodup, union_empty a, union_self ha.nodup,
    union_same_of_disjoint ha.nodup hb.nodup,
    fun l => ⟨hset l, congrArg Location.text (hset l)⟩⟩
  rw [get?_union a hb.nodup]
  split
  · next hk =>
    obtain ⟨v, hv⟩ := mem_keys_iff.1 hk
    rw [hv]
    rfl
  · next hk =>
    rw [get?_eq_none hk]
    rfl

/-- Keys of both kinds overlap, and a key that is set again keeps its place in the text. -/
theorem union_ordered_monoid_overlapping :
    ∃ (a b c : Captures) (l : Location),
      a.entries = [(.query "x", .single "1"), (.name "id", .single "2")] ∧
      b.entries = [(.query "y", .list ["3", "4"]), (.query "x", .list [])] ∧
      c.entries = [(.name "x", .single "5"), (.query "y", .single "6")] ∧
      (a.union b).entries = [(.query "x", .list []), (.name "id", .single "2"),
        (.query "y", .list ["3", "4"])] ∧
      (a.union b).union c = a.union (b.union c) ∧ a.union a = a ∧
      Template.ofPattern "/:id" = .ok l.template ∧ l.captures = a ∧
      ((l.set b).set c).text = "/2?y=6&x=5" ∧ (l.set (b.union c)).text = "/2?y=6&x=5" := by
  let a : Captures := ⟨[(.query "x", .single "1"), (.name "id", .single "2")]⟩
  let b : Captures := ⟨[(.query "y", .list ["3", "4"]), (.query "x", .list [])]⟩
  let c : Captures := ⟨[(.name "x", .single "5"), (.query "y", .single "6")]⟩
  let l : Location := ⟨⟨true, [.var "id"]⟩, a⟩
  have ha : Arises a := .ofList [(.query "x", .single "1"), (.name "id", .single "2")]
  have hb : Arises b := .ofList [(.query "y", .list ["3", "4"]), (.query "x", .list [])]
  obtain ⟨-, hentries, hassoc, -, -, hself, -, hall⟩ := union_ordered_monoid ha hb c
  have htext : (l.set (b.union c)).text = "/2?y=6&x=5" := by decide +kernel
  exact ⟨a, b, c, l, rfl, rfl, rfl, hentries, hassoc, hself, rfl, rfl, (hall l).2.trans htext,
    htext⟩

end RoutePattern.Captures
