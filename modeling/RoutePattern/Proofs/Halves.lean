/-
The two halves of a location's text.

A location has its path and its query on their own as well: each is made of some
of the captures, the declared ones or all others. The text is made of all of
them at once. There the parts take their values away one after the other, and
what they leave is the query. That the halves put together are the text needs
both to agree on what is declared, also where parts share a name: the first of
them takes the value, and the ones after it find nothing on either side
(`Part.assign_congr`).

That a half does not depend on the entries of the other one is then a matter of
filtering: a change under a key of one kind leaves the entries of the other kind
as they are, in their order.
-/
import RoutePattern.Location
import RoutePattern.Proofs.Writing

set_option autoImplicit false

namespace RoutePattern

namespace Captures

/-! ## Changes under some of the keys -/

/-- Captures made of others by adding, changing and removing entries, one after the other, under
keys that are allowed. -/
inductive ChangedUnder (allowed : Key → Prop) (c : Captures) : Captures → Prop where
  | unchanged : ChangedUnder allowed c c
  | insert {d : Captures} {k : Key} (v : Value) : ChangedUnder allowed c d → allowed k →
      ChangedUnder allowed c (d.insert k v)
  | push {d : Captures} {k : Key} (text : String) : ChangedUnder allowed c d → allowed k →
      ChangedUnder allowed c (d.push k text)
  | erase {d : Captures} {k : Key} : ChangedUnder allowed c d → allowed k →
      ChangedUnder allowed c (d.erase k)

/-- Removing a key that is not wanted removes no entry that is. -/
theorem filter_erase (want : Key → Bool) {k : Key} (h : want k = false) (c : Captures) :
    (c.erase k).entries.filter (fun e => want e.1) = c.entries.filter fun e => want e.1 := by
  obtain ⟨es⟩ := c
  simp only [erase]
  induction es with
  | nil => rfl
  | cons e es ih =>
      by_cases he : e.1 = k
      · rw [List.eraseP_cons_of_pos (by simpa using he), List.filter_cons_of_neg (by simp [he, h])]
      · rw [List.eraseP_cons_of_neg (by simpa using he), List.filter_cons, List.filter_cons, ih]

/-- Changes under other keys leave the wanted entries **as they are, in their order**. -/
theorem ChangedUnder.filterKeys_eq {allowed : Key → Prop} {want : Key → Bool} {c d : Captures}
    (h : ChangedUnder allowed c d) (hwant : ∀ k, allowed k → want k = false) :
    d.filterKeys want = c.filterKeys want := by
  induction h with
  | unchanged => rfl
  | insert v _ hk ih => exact (congrArg Captures.mk (filter_upsert want (hwant _ hk) _ _)).trans ih
  | push text _ hk ih => exact (congrArg Captures.mk (filter_upsert want (hwant _ hk) _ _)).trans ih
  | erase _ hk ih => exact (congrArg Captures.mk (filter_erase want (hwant _ hk) _)).trans ih

/-- What is found after a removal, where no key stands twice. -/
theorem get?_erase {c : Captures} (h : c.keys.Nodup) (k k' : Key) :
    (c.erase k).get? k' = if k' = k then none else c.get? k' := by
  have hfilter : c.erase k = c.filterKeys fun l => decide (l ≠ k) :=
    congrArg Captures.mk (entries_erase h k)
  rw [hfilter, get?_filterKeys]
  by_cases hk : k' = k <;> simp [hk]

end Captures

/-! ## The walk over the parts -/

/-- Parts find the same values in captures that agree on their names. A value that a part takes away
is gone on both sides. -/
theorem Part.assign_congr {ps : List Part} {c d : Captures} (hc : c.keys.Nodup)
    (hd : d.keys.Nodup) (h : ∀ name ∈ ps.filterMap name?, c.name? name = d.name? name) :
    assign ps c = assign ps d := by
  induction ps generalizing c d with
  | nil => rfl
  | cons p ps ih =>
      cases hp : p.name? with
      | none =>
          rw [List.filterMap_cons_none hp] at h
          rw [assign, assign, value?, value?, takeFrom, takeFrom, hp]
          exact congrArg ((p, none) :: ·) (ih hc hd h)
      | some name =>
          rw [List.filterMap_cons_some hp] at h
          have hrest : ∀ other ∈ ps.filterMap name?,
              (c.erase (.name name)).name? other = (d.erase (.name name)).name? other := by
            intro other ho
            rw [Captures.name?, Captures.name?, Captures.get?_erase hc, Captures.get?_erase hd]
            split
            · rfl
            · exact h other (List.mem_cons_of_mem _ ho)
          have hvalue : c.name? name = d.name? name := h name List.mem_cons_self
          rw [assign, assign, value?, value?, takeFrom, takeFrom, hp]
          simp only [Option.bind_some, hvalue]
          rw [ih (Captures.nodup_erase hc _) (Captures.nodup_erase hd _) hrest]

namespace Template

/-- The declared entries give the path, and all others the query. -/
theorem render_eq_append {t : Template} {c : Captures} (h : c.keys.Nodup) :
    t.render c = t.render (c.filterKeys t.declares) ++
      queryTail (c.filterKeys fun k => !t.declares k) := by
  have hdeclared := Captures.nodup_filterKeys h t.declares
  -- with the glob filled, the names of the parts find the same on both sides
  have hassign : Part.assign t.parts (t.fillGlob [] c) =
      Part.assign t.parts (t.fillGlob [] (c.filterKeys t.declares)) := by
    refine Part.assign_congr (nodup_fillGlob t [] h) (nodup_fillGlob t [] hdeclared) ?_
    intro name hname
    have hk : t.declares (.name name) = true := declares_iff.2 (List.mem_map_of_mem hname)
    rw [Captures.name?, Captures.name?, get?_fillGlob_filterKeys, if_pos hk]
  have hrest : t.leftover (t.fillGlob [] c) = c.filterKeys fun k => !t.declares k :=
    congrArg Captures.mk (entries_leftover_fillGlob t [] h)
  have hnone : (t.leftover (t.fillGlob [] (c.filterKeys t.declares))).entries = [] := by
    rw [entries_leftover_fillGlob t [] hdeclared]
    refine List.filter_eq_nil_iff.2 fun e he => ?_
    have hk : t.declares e.1 = true := (List.mem_filter.1 he).2
    simp [hk]
  have hempty : queryTail (t.leftover (t.fillGlob [] (c.filterKeys t.declares))) = "" :=
    if_pos hnone
  rw [render_eq, render_eq, write, write, segments, segments, suffix, suffix, hassign, hrest,
    hempty, String.append_empty]

end Template

namespace Location

/-- A location declares what its template declares. -/
theorem declares_eq (l : Location) : l.declares = l.template.declares := by
  funext k
  apply Bool.eq_iff_iff.2
  rw [Template.declares_iff]
  cases k with
  | name name => simp [declares]
  | query text => simp [declares]

/-- The text is the path, and then the query with its question mark if there is one. -/
theorem text_eq_path_append_queryTail {l : Location} (h : l.captures.keys.Nodup) :
    l.text = l.path ++ Template.queryTail l.undeclared := by
  rw [text, path, declared, undeclared, declares_eq]
  exact Template.render_eq_append h

/-- The text of a location **splits into its path and its query**. There is a query exactly if an
entry is not declared, and every entry counts for one of the halves: a change under undeclared keys
leaves the path as it is, and a change under declared keys leaves the query as it is, which lists the
texts of the other entries in their order. -/
theorem text_splits {l : Location} (h : l.captures.Reachable) :
    ((∃ e ∈ l.captures.entries, l.declares e.1 = false) → l.text = l.path ++ "?" ++ l.query) ∧
    ((∀ e ∈ l.captures.entries, l.declares e.1 = true) → l.text = l.path) ∧
    (l.declared.entries ++ l.undeclared.entries).Perm l.captures.entries ∧
    (∀ c, l.captures.ChangedUnder (fun k => l.declares k = false) c →
      (Location.mk l.template c).path = l.path) ∧
    (∀ c, l.captures.ChangedUnder (fun k => l.declares k = true) c →
      (Location.mk l.template c).query = l.query) ∧
    l.query = "&".intercalate ((l.captures.entries.filter fun e => !l.declares e.1).flatMap
      fun e => e.2.texts.map fun text => e.1.text ++ "=" ++ text) := by
  have htext := text_eq_path_append_queryTail h.nodup
  refine ⟨?_, ?_, List.filter_append_perm _ _, ?_, ?_, rfl⟩
  · rintro ⟨e, he, hk⟩
    have hne : l.undeclared.entries ≠ [] :=
      List.ne_nil_of_mem (List.mem_filter.2 ⟨he, by simp [hk]⟩)
    rw [htext, Template.queryTail, if_neg hne, ← String.append_assoc]
    rfl
  · intro hall
    have hnil : l.undeclared.entries = [] :=
      List.filter_eq_nil_iff.2 fun e he => by simp [hall e he]
    rw [htext, Template.queryTail, if_pos hnil, String.append_empty]
  · intro c hc
    exact congrArg l.template.render (hc.filterKeys_eq fun _ hk => hk)
  · intro c hc
    have hundeclared : c.filterKeys (fun k => !l.declares k) = l.undeclared :=
      hc.filterKeys_eq fun k hk => by simp [hk]
    exact congrArg Query.write hundeclared

/-- Three parts share one name, so the variable takes the value and the glob and the format find
none; one of the other entries holds no text at all. Changes on either side leave the other half as
it is. -/
theorem text_splits_shared_name :
    ∃ l : Location, Template.ofPattern "/:a/x/*a.a" = .ok l.template ∧
      l.captures.entries = [(.query "k", .list ["1", "2"]), (.name "a", .single "v"),
        (.name "more", .list [])] ∧
      l.path = "/v/x" ∧ l.query = "k=1&k=2" ∧ l.text = l.path ++ "?" ++ l.query ∧
      (Location.mk l.template ((l.captures.push (.query "k") "3").erase (.name "more"))).path =
        "/v/x" ∧
      (Location.mk l.template (l.captures.insert (.name "a") (.list []))).query = "k=1&k=2" := by
  let l : Location := ⟨⟨true, [.var "a", .literal "x", .glob "a", .format "a"]⟩,
    ⟨[(.query "k", .list ["1", "2"]), (.name "a", .single "v"), (.name "more", .list [])]⟩⟩
  have h : l.captures.Reachable := Captures.reachable_iff.2 (by decide)
  have hpath : l.path = "/v/x" := by decide +kernel
  have hquery : l.query = "k=1&k=2" := by decide +kernel
  obtain ⟨hsome, -, -, hpaths, hqueries, -⟩ := text_splits h
  have hundeclared : l.captures.ChangedUnder (fun k => l.declares k = false)
      ((l.captures.push (.query "k") "3").erase (.name "more")) :=
    .erase (.push "3" .unchanged (by decide)) (by decide)
  have hdeclared : l.captures.ChangedUnder (fun k => l.declares k = true)
      (l.captures.insert (.name "a") (.list [])) :=
    .insert (.list []) .unchanged (by decide)
  exact ⟨l, rfl, rfl, hpath, hquery, hsome ⟨_, List.mem_cons_self, rfl⟩,
    (hpaths _ hundeclared).trans hpath, (hqueries _ hdeclared).trans hquery⟩

end Location

end RoutePattern
