/-
Removing a part from a location.

A part is removed from the template first, and the captures are gone through
after that: each part that is not in the new template any longer takes its value
away. Only one part can be such a part, and it is one only if no equal part is
left (`Template.without_of_not_mem`). So what goes is one value at most, and all
other entries stay as they are, in their order.

Parts are compared there, and values are kept by name. The two come to the same
where parts of different kinds have different names (`Template.OneKind`). Where
a variable, a glob or a format share a name, the value goes with the one that is
removed, and what is left of the template still asks for it.
-/
import RoutePattern.Proofs.Halves

set_option autoImplicit false

namespace RoutePattern

namespace Template

/-! ## The part that is removed -/

/-- One template is another one without this part, in one place. -/
def Without (t : Template) (part : Part) (u : Template) : Prop :=
  ∃ front behind, t.parts = front ++ part :: behind ∧ u.parts = front ++ behind

/-- No two different parts have one name. -/
def OneKind (t : Template) : Prop :=
  ∀ p ∈ t.parts, ∀ q ∈ t.parts, p.name?.isSome = true → p.name? = q.name? → p = q

theorem Without.mem {t u : Template} {part : Part} (h : t.Without part u) : part ∈ t.parts := by
  obtain ⟨front, behind, ht, -⟩ := h
  rw [ht]
  exact List.mem_append_right _ List.mem_cons_self

theorem Without.subset {t u : Template} {part : Part} (h : t.Without part u) :
    u.parts ⊆ t.parts := by
  obtain ⟨front, behind, ht, hu⟩ := h
  rw [ht, hu]
  exact ((List.sublist_cons_self part behind).append_left front).subset

/-- A part that is missing after a removal is the one that was removed. -/
theorem without_of_not_mem {t u : Template} {p : String} (h : t.remove p = .ok u) {part : Part}
    (hmem : part ∈ t.parts) (hnot : part ∉ u.parts) : t.Without part u := by
  rcases eq_or_exists_erase_of_remove h with rfl | ⟨removed, rfl⟩
  · exact absurd hmem hnot
  · obtain rfl : part = removed := Decidable.byContradiction fun hne =>
      hnot ((List.mem_erase_of_ne hne).2 hmem)
    obtain ⟨front, behind, -, ht, hu⟩ := List.exists_erase_eq hmem
    exact ⟨front, behind, ht, hu⟩

/-- A part that is left has its name declared. -/
theorem declares_of_mem {u : Template} {part : Part} {k : Key} (h : part ∈ u.parts)
    (hk : part.name?.map Key.name = some k) : u.declares k = true :=
  List.any_eq_true.2 ⟨part, h, by simpa using hk⟩

/-- Where different parts have different names, a name is still declared only if a part that is the
removed one is left. -/
theorem OneKind.mem_of_declares {t u : Template} (ht : t.OneKind) {part : Part}
    (h : t.Without part u) {k : Key} (hk : part.name?.map Key.name = some k)
    (hdeclared : u.declares k = true) : part ∈ u.parts := by
  obtain ⟨q, hq, hname⟩ := List.any_eq_true.1 hdeclared
  have hqk : q.name?.map Key.name = some k := by simpa using hname
  obtain ⟨name, hp, rfl⟩ := Option.map_eq_some_iff.1 hk
  obtain ⟨other, ho, hkey⟩ := Option.map_eq_some_iff.1 hqk
  obtain rfl := Key.name.inj hkey
  obtain rfl := ht part h.mem q (h.subset hq) (by rw [hp]; rfl) (hp.trans ho.symm)
  exact hq

end Template

namespace Location

/-! ## The values that go -/

/-- Only the parts that are missing take their values away. -/
theorem foldl_dropValue_eq (t : Template) (ps : List Part) (c : Captures) :
    ps.foldl (dropValue t) c = Template.leftover ⟨false, ps.filter fun p => p ∉ t.parts⟩ c := by
  rw [Template.leftover, List.foldl_filter]
  congr 1
  funext c p
  by_cases hp : p ∈ t.parts <;> simp [dropValue, hp]

/-- What a removal leaves are the entries that no missing part declares. -/
theorem entries_remove {l m : Location} {p : String} (h : l.captures.keys.Nodup)
    (hm : l.remove p = .ok m) :
    m.captures.entries = l.captures.entries.filter fun e =>
      !(Template.mk false (l.template.parts.filter fun p => p ∉ m.template.parts)).declares
        e.1 := by
  obtain ⟨t, -, rfl⟩ := exists_of_map_eq_ok hm
  change (l.template.parts.foldl (dropValue t) l.captures).entries = _
  rw [foldl_dropValue_eq, Template.entries_leftover _ h]

theorem template_remove {l m : Location} {p : String} (hm : l.remove p = .ok m) :
    l.template.remove p = .ok m.template := by
  obtain ⟨t, ht, rfl⟩ := exists_of_map_eq_ok hm
  exact ht

/-- The value that goes is the one of the removed part, if no equal part is left. -/
theorem not_mem_entries_remove_iff {l m : Location} {p : String} (h : l.captures.keys.Nodup)
    (hm : l.remove p = .ok m) {e : Entry} (he : e ∈ l.captures.entries) :
    e ∉ m.captures.entries ↔ ∃ part, l.template.Without part m.template ∧
      part ∉ m.template.parts ∧ part.name?.map Key.name = some e.1 := by
  rw [entries_remove h hm, List.mem_filter, Template.declares]
  simp only [he, true_and, Bool.not_eq_true', Bool.not_eq_false, List.any_eq_true,
    List.mem_filter, decide_eq_true_eq]
  constructor
  · rintro ⟨part, ⟨hmem, hnot⟩, hname⟩
    exact ⟨part, Template.without_of_not_mem (template_remove hm) hmem hnot, hnot, hname⟩
  · rintro ⟨part, hwithout, hnot, hname⟩
    exact ⟨part, ⟨hwithout.mem, hnot⟩, hname⟩

/-! ## What is still needed -/

/-- The values that are gone are those of a removed part whose name is not declared any longer. -/
def DropsUnneeded (l m : Location) : Prop :=
  ∀ e ∈ l.captures.entries, e ∉ m.captures.entries ↔
    ∃ part, l.template.Without part m.template ∧ part.name?.map Key.name = some e.1 ∧
      m.template.declares e.1 = false

/-- Only what nothing needs is dropped, exactly if no value of a part that is missing is under a name
that another part still declares. -/
theorem dropsUnneeded_remove_iff {l m : Location} {p : String} (h : l.captures.keys.Nodup)
    (hm : l.remove p = .ok m) :
    l.DropsUnneeded m ↔ ∀ part k, l.template.Without part m.template →
      part ∉ m.template.parts → part.name?.map Key.name = some k → k ∈ l.captures.keys →
      m.template.declares k = false := by
  constructor
  · intro hdrops part k hwithout hnot hk hmem
    obtain ⟨e, he, rfl⟩ := List.mem_map.1 hmem
    have hgone := (not_mem_entries_remove_iff h hm he).2 ⟨part, hwithout, hnot, hk⟩
    obtain ⟨-, -, -, hundeclared⟩ := (hdrops e he).1 hgone
    exact hundeclared
  · intro hfree e he
    rw [not_mem_entries_remove_iff h hm he]
    constructor
    · rintro ⟨part, hwithout, hnot, hk⟩
      exact ⟨part, hwithout, hk, hfree part e.1 hwithout hnot hk (List.mem_map_of_mem he)⟩
    · rintro ⟨part, hwithout, hk, hundeclared⟩
      have hnot : part ∉ m.template.parts := fun hleft =>
        Bool.eq_false_iff.1 hundeclared (Template.declares_of_mem hleft hk)
      exact ⟨part, hwithout, hnot, hk⟩

/-- An entry that the template does not declare stays. -/
theorem mem_entries_remove_of_undeclared {l m : Location} {p : String}
    (h : l.captures.keys.Nodup) (hm : l.remove p = .ok m) {e : Entry}
    (he : e ∈ l.captures.entries) (hundeclared : l.declares e.1 = false) :
    e ∈ m.captures.entries := by
  refine Decidable.byContradiction fun hgone => ?_
  obtain ⟨part, hwithout, -, hk⟩ := (not_mem_entries_remove_iff h hm he).1 hgone
  rw [declares_eq] at hundeclared
  exact Bool.eq_false_iff.1 hundeclared (Template.declares_of_mem hwithout.mem hk)

/-- A removal fails **only if the pattern cannot be read**, with the fault of reading it. Otherwise the
part is removed from the template, and of the captures **exactly the value of the removed part goes, if
no equal part is left**; all else stays as it is, in its order. So nothing that is still needed goes,
exactly if no other part that is left has the name of the removed one and a value for it. It never
does where different parts have different names. -/
theorem remove_drops_iff {l : Location} (h : l.captures.Reachable) (p : String) :
    (∀ fault, Template.read p = .error fault → l.remove p = .error fault) ∧
    (∀ u, Template.read p = .ok u → ∃ m, l.remove p = .ok m) ∧
    ∀ m, l.remove p = .ok m →
      l.template.remove p = .ok m.template ∧
      m.captures.entries.Sublist l.captures.entries ∧
      (∀ e ∈ l.captures.entries, e ∉ m.captures.entries ↔
        ∃ part, l.template.Without part m.template ∧ part ∉ m.template.parts ∧
          part.name?.map Key.name = some e.1) ∧
      (∀ e ∈ l.captures.entries, l.declares e.1 = false → e ∈ m.captures.entries) ∧
      (l.DropsUnneeded m ↔ ∀ part k, l.template.Without part m.template →
        part ∉ m.template.parts → part.name?.map Key.name = some k → k ∈ l.captures.keys →
        m.template.declares k = false) ∧
      (l.template.OneKind → l.DropsUnneeded m) := by
  refine ⟨?_, ?_, ?_⟩
  · intro fault hfault
    rw [remove, Template.remove, hfault]
    rfl
  · intro u hu
    rw [remove, Template.remove, hu]
    exact ⟨_, rfl⟩
  · intro m hm
    have hdrops := dropsUnneeded_remove_iff h.nodup hm
    have hsublist : m.captures.entries.Sublist l.captures.entries := by
      rw [entries_remove h.nodup hm]
      exact List.filter_sublist
    refine ⟨template_remove hm, hsublist, fun e he => not_mem_entries_remove_iff h.nodup hm he,
      fun e he => mem_entries_remove_of_undeclared h.nodup hm he, hdrops, fun hone => ?_⟩
    refine hdrops.2 fun part k hwithout hnot hk _ => Bool.eq_false_iff.2 fun hdeclared => ?_
    exact hnot (hone.mem_of_declares hwithout hk hdeclared)

/-- The variable stands twice, so its value stays when one of the two is removed. The value of the
format goes with it, and nothing under other keys does. -/
theorem remove_drops_iff_repeated :
    ∃ l m n : Location, Template.ofPattern "/:id/x/:id.fmt" = .ok l.template ∧
      l.captures.entries = [(.query "fmt", .single "q"), (.name "id", .single "1"),
        (.name "fmt", .single "html"), (.name "more", .single "2")] ∧
      l.remove ":id" = .ok m ∧ m.captures.entries = l.captures.entries ∧
      m.remove ".fmt" = .ok n ∧ n.template.pattern = "/x/:id" ∧
      n.captures.entries = [(.query "fmt", .single "q"), (.name "id", .single "1"),
        (.name "more", .single "2")] ∧
      l.DropsUnneeded m ∧ m.DropsUnneeded n ∧ l.remove "x:" = .error .emptyName := by
  let l : Location := ⟨⟨true, [.var "id", .literal "x", .var "id", .format "fmt"]⟩,
    ⟨[(.query "fmt", .single "q"), (.name "id", .single "1"), (.name "fmt", .single "html"),
      (.name "more", .single "2")]⟩⟩
  let m : Location := ⟨l.template.erase (.var "id"), l.captures⟩
  let n : Location := ⟨m.template.erase (.format "fmt"), l.captures.erase (.name "fmt")⟩
  have h : l.captures.Reachable := Captures.reachable_iff.2 (by decide)
  have hreached : m.captures.Reachable := h
  have hm : l.remove ":id" = .ok m := rfl
  have hn : m.remove ".fmt" = .ok n := rfl
  have hl : l.template.OneKind := by unfold Template.OneKind; decide
  have hone : m.template.OneKind := by unfold Template.OneKind; decide
  obtain ⟨hfault, -, -⟩ := remove_drops_iff h "x:"
  obtain ⟨-, -, -, -, -, hkept⟩ := (remove_drops_iff h ":id").2.2 m hm
  obtain ⟨-, -, -, -, -, hdropped⟩ := (remove_drops_iff hreached ".fmt").2.2 n hn
  exact ⟨l, m, n, rfl, rfl, hm, rfl, hn, by decide +kernel, rfl, hkept hl, hdropped hone,
    hfault _ rfl⟩

/-- Something that is still needed **can go**: the variable has the name of the format that is
removed, and the value goes with the format. -/
theorem not_keeps_declared_of_shared_name :
    ∃ l m : Location, Location.ofInput? ⟨true, [.var "a", .format "a"]⟩ "/1.2" = some l ∧
      Template.ofPattern "/:a.a" = .ok l.template ∧ l.text = "/2" ∧
      l.captures.entries = [(.name "a", .single "2")] ∧ l.remove ".a" = .ok m ∧
      m.template.pattern = "/:a" ∧ m.template.declares (.name "a") = true ∧
      m.captures.entries = [] ∧ m.text = "/" ∧ ¬ l.DropsUnneeded m := by
  let l : Location := ⟨⟨true, [.var "a", .format "a"]⟩, ⟨[(.name "a", .single "2")]⟩⟩
  let m : Location := ⟨⟨true, [.var "a"]⟩, ⟨[]⟩⟩
  have hneeded : ¬ l.DropsUnneeded m := by
    intro hdrops
    obtain ⟨-, -, -, hundeclared⟩ :=
      (hdrops (.name "a", .single "2") List.mem_cons_self).1 List.not_mem_nil
    cases hundeclared
  exact ⟨l, m, by decide +kernel, rfl, by decide +kernel, rfl, rfl, by decide +kernel, rfl, rfl,
    by decide +kernel, hneeded⟩

end Location

end RoutePattern
