/-
Routers filled in another order.

Whether a route is let in depends on all that was let in before it, but only
through the shapes, and "no two of these have one shape" does not depend on an
order (`insertEach_empty_eq_ok_iff`). So a list of routes that can be inserted
can be inserted in any order. What is found in the two routers can differ only
where the order decides, for an input that more than one template matches; if one
template matches at most, the first match is the only one.
-/
import Mathlib.Data.List.Nodup
import RoutePattern.Proofs.Dispatch

set_option autoImplicit false

namespace RoutePattern.Router

variable {α : Type}

/-! ## Many routes inserted -/

/-- Inserts routes one after the other, as long as none is refused. -/
def insertEach (r : Router α) (routes : List (Template × α)) : Except InsertFault (Router α) :=
  routes.foldlM (fun r route => r.insertTemplate route.1 route.2) r

theorem insertEach_cons_eq_ok_iff {r r' : Router α} {t : Template} {a : α}
    {routes : List (Template × α)} :
    r.insertEach ((t, a) :: routes) = .ok r' ↔
      t.shape ∉ r.shapes ∧ (⟨r.routes ++ [(t, a)]⟩ : Router α).insertEach routes = .ok r' := by
  unfold insertEach
  rw [List.foldlM_cons]
  constructor
  · intro h
    obtain ⟨r₁, hr₁, hrest⟩ := exists_of_bind_eq_ok h
    obtain ⟨hshape, rfl⟩ := insertTemplate_eq_ok_iff.1 hr₁
    exact ⟨hshape, hrest⟩
  · rintro ⟨hshape, hrest⟩
    rw [insertTemplate_eq_ok_iff.2 ⟨hshape, rfl⟩]
    exact hrest

theorem shapes_eq_map (r : Router α) : r.shapes = r.routes.map fun route => route.1.shape := by
  rw [shapes, templates, List.map_map]
  rfl

/-- Routes are let in if their shapes are new and distinct, and then they stand behind those that
were there. -/
theorem insertEach_eq_ok_iff {r r' : Router α} {routes : List (Template × α)} :
    r.insertEach routes = .ok r' ↔
      (∀ route ∈ routes, route.1.shape ∉ r.shapes) ∧
        (routes.map fun route => route.1.shape).Nodup ∧ r' = ⟨r.routes ++ routes⟩ := by
  induction routes generalizing r with
  | nil =>
      have hr : (⟨r.routes ++ []⟩ : Router α) = r := congrArg Router.mk (List.append_nil r.routes)
      rw [hr]
      constructor
      · intro h
        exact ⟨by simp, List.nodup_nil, (Except.ok.inj h).symm⟩
      · rintro ⟨-, -, rfl⟩
        rfl
  | cons route routes ih =>
      obtain ⟨t, a⟩ := route
      have hshapes : (⟨r.routes ++ [(t, a)]⟩ : Router α).shapes = r.shapes ++ [t.shape] := by
        simp [shapes, templates]
      rw [insertEach_cons_eq_ok_iff, ih, hshapes, List.forall_mem_cons, List.map_cons,
        List.nodup_cons, List.append_assoc]
      -- the shape of the first route is new for the router, and the later ones are not that shape
      constructor
      · rintro ⟨hnew, hrest, hnodup, hroutes⟩
        refine ⟨⟨hnew, fun route hr hmem => ?_⟩, ⟨fun hmem => ?_, hnodup⟩, hroutes⟩
        · exact hrest route hr (List.mem_append_left _ hmem)
        · obtain ⟨route, hr, hshape⟩ := List.mem_map.1 hmem
          exact hrest route hr (List.mem_append_right _ (by simp [hshape]))
      · rintro ⟨⟨hnew, hrest⟩, ⟨hfirst, hnodup⟩, hroutes⟩
        refine ⟨hnew, fun route hr hmem => ?_, hnodup, hroutes⟩
        rcases List.mem_append.1 hmem with hmem | hmem
        · exact hrest route hr hmem
        · exact hfirst (List.mem_map.2 ⟨route, hr, List.mem_singleton.1 hmem⟩)

/-- The empty router lets in what has distinct shapes, and keeps its order. -/
theorem insertEach_empty_eq_ok_iff {r : Router α} {routes : List (Template × α)} :
    empty.insertEach routes = .ok r ↔
      (routes.map fun route => route.1.shape).Nodup ∧ r = ⟨routes⟩ := by
  rw [insertEach_eq_ok_iff]
  constructor
  · rintro ⟨-, hnodup, rfl⟩
    exact ⟨hnodup, rfl⟩
  · rintro ⟨hnodup, rfl⟩
    exact ⟨fun route _ => List.not_mem_nil, hnodup, rfl⟩

/-! ## What is found -/

/-- The route that is found is one of the routes, and matches. -/
theorem Selects.mem_routes {r : Router α} {input : String} {before after : List (Template × α)}
    {t : Template} {a : α} {c : Captures} (h : r.Selects input before t a after c) :
    (t, a) ∈ r.routes := by
  rw [h.routes_eq]
  exact List.mem_append_right _ List.mem_cons_self

/-- In another order something is found if something was. -/
theorem exists_selects_of_perm {r r' : Router α} (h : r'.routes.Perm r.routes) {input : String}
    {t : Template} (ht : t ∈ r.templates) (haccepts : t.accepts input = true) :
    ∃ before u a after c, r'.Selects input before u a after c := by
  rcases r'.selects_or_forall_none input with hselects | hnone
  · exact hselects
  · have hmem : t ∈ r'.templates := (h.map Prod.fst).mem_iff.2 ht
    rw [Template.accepts_of_capture?_eq_none (hnone t hmem)] at haccepts
    exact absurd haccepts (by decide)

/-- Where one template matches at most, the order does not count. -/
theorem find?_eq_of_perm {r r' : Router α} (hshapes : r.shapes.Nodup)
    (h : r'.routes.Perm r.routes) {input : String}
    (honly : ∀ t ∈ r.templates, ∀ u ∈ r.templates, t.accepts input = true →
      u.accepts input = true → t = u) : r'.find? input = r.find? input := by
  rcases r.selects_or_forall_none input with ⟨before, t, a, after, c, hselects⟩ | hnone
  · have ht : t ∈ r.templates := List.mem_map_of_mem hselects.mem_routes
    have hta := Template.accepts_of_capture? hselects.captures
    obtain ⟨before', u, b, after', d, hselects'⟩ := exists_selects_of_perm h ht hta
    have hroute : (u, b) ∈ r.routes := h.mem_iff.1 hselects'.mem_routes
    have hua := Template.accepts_of_capture? hselects'.captures
    obtain rfl : t = u := honly t ht u (List.mem_map_of_mem hroute) hta hua
    -- a template is there once, so it comes with one datum
    rw [shapes_eq_map] at hshapes
    have hdatum : (t, a) = (t, b) :=
      List.inj_on_of_nodup_map hshapes hselects.mem_routes hroute rfl
    obtain ⟨-, rfl⟩ := Prod.mk.inj hdatum
    obtain rfl : c = d := Option.some.inj (hselects.captures.symm.trans hselects'.captures)
    rw [hselects.find?_eq, hselects'.find?_eq]
  · have hnone' : ∀ t ∈ r'.templates, t.capture? input = none := fun t ht =>
      hnone t ((h.map Prod.fst).mem_iff.1 ht)
    rw [find?_eq_none_iff.2 hnone, find?_eq_none_iff.2 hnone']

/-- Routes that can be inserted can be inserted **in any order**, and the order counts only for
inputs that several templates match. For these too something is found in both routers, each time by
the first template in the order of that router. -/
theorem insertEach_of_perm {routes routes' : List (Template × α)} {r : Router α}
    (hperm : routes'.Perm routes) (h : empty.insertEach routes = .ok r) :
    ∃ r', empty.insertEach routes' = .ok r' ∧ r.routes = routes ∧ r'.routes = routes' ∧
      ∀ input,
        ((∀ t ∈ r.templates, ∀ u ∈ r.templates, t.accepts input = true →
          u.accepts input = true → t = u) → r'.find? input = r.find? input) ∧
        ((∃ t ∈ r.templates, t.accepts input = true) →
          (∃ before t a after c, r.Selects input before t a after c ∧
            r.find? input = some (a, c)) ∧
          ∃ before t a after c, r'.Selects input before t a after c ∧
            r'.find? input = some (a, c)) := by
  obtain ⟨hnodup, rfl⟩ := insertEach_empty_eq_ok_iff.1 h
  have hnodup' : (routes'.map fun route => route.1.shape).Nodup :=
    (hperm.map fun route => route.1.shape).nodup_iff.2 hnodup
  refine ⟨⟨routes'⟩, insertEach_empty_eq_ok_iff.2 ⟨hnodup', rfl⟩, rfl, rfl, fun input => ⟨?_, ?_⟩⟩
  · intro honly
    rw [← shapes_eq_map ⟨routes⟩] at hnodup
    exact find?_eq_of_perm hnodup hperm honly
  · rintro ⟨t, ht, haccepts⟩
    have hfound : ∀ {r' : Router α}, r'.routes.Perm routes →
        ∃ before t a after c, r'.Selects input before t a after c ∧
          r'.find? input = some (a, c) := by
      intro r' hr'
      obtain ⟨before, u, a, after, c, hselects⟩ :=
        exists_selects_of_perm (r := ⟨routes⟩) hr' ht haccepts
      exact ⟨before, u, a, after, c, hselects, hselects.find?_eq⟩
    exact ⟨hfound (List.Perm.refl _), hfound hperm⟩

/-- Three routes in two orders: `/b` is matched by one of them and goes there in both routers, `/a`
is matched by two and goes to the first. -/
theorem insertEach_of_perm_overlapping :
    ∃ r r' : Router Nat,
      empty.insertEach [(⟨true, [.var "v"]⟩, 1), (⟨true, [.literal "a"]⟩, 2),
        (⟨true, [.var "x", .var "y"]⟩, 3)] = .ok r ∧
      empty.insertEach [(⟨true, [.literal "a"]⟩, 2), (⟨true, [.var "x", .var "y"]⟩, 3),
        (⟨true, [.var "v"]⟩, 1)] = .ok r' ∧
      r'.find? "/b" = r.find? "/b" ∧ r.find? "/b" = some (1, ⟨[(.name "v", .single "b")]⟩) ∧
      (∃ before t after, r.Selects "/a" before t 1 after ⟨[(.name "v", .single "a")]⟩) ∧
      (∃ before t after, r'.Selects "/a" before t 2 after ⟨[]⟩) ∧
      r.find? "/a" = some (1, ⟨[(.name "v", .single "a")]⟩) ∧
      r'.find? "/a" = some (2, ⟨[]⟩) := by
  let routes : List (Template × Nat) := [(⟨true, [.var "v"]⟩, 1), (⟨true, [.literal "a"]⟩, 2),
    (⟨true, [.var "x", .var "y"]⟩, 3)]
  let routes' : List (Template × Nat) := [(⟨true, [.literal "a"]⟩, 2),
    (⟨true, [.var "x", .var "y"]⟩, 3), (⟨true, [.var "v"]⟩, 1)]
  have h : empty.insertEach routes = .ok ⟨routes⟩ := by decide +kernel
  have hperm : routes'.Perm routes := by decide +kernel
  obtain ⟨r', hr', -, hroutes, hfind⟩ := insertEach_of_perm hperm h
  obtain rfl : r' = ⟨routes'⟩ := congrArg Router.mk hroutes
  have honly : ∀ t ∈ (⟨routes⟩ : Router Nat).templates, ∀ u ∈ (⟨routes⟩ : Router Nat).templates,
      t.accepts "/b" = true → u.accepts "/b" = true → t = u := by decide +kernel
  have hsome : ∃ t ∈ (⟨routes⟩ : Router Nat).templates, t.accepts "/a" = true := by
    decide +kernel
  have hfound : (⟨routes⟩ : Router Nat).find? "/a" =
      some (1, ⟨[(.name "v", .single "a")]⟩) := by decide +kernel
  have hfound' : (⟨routes'⟩ : Router Nat).find? "/a" = some (2, ⟨[]⟩) := by decide +kernel
  obtain ⟨⟨before, t, a, after, c, hselects, hfirst⟩, before', t', a', after', c', hselects',
    hfirst'⟩ := (hfind "/a").2 hsome
  obtain ⟨rfl, rfl⟩ := Prod.mk.inj (Option.some.inj (hfound.symm.trans hfirst))
  obtain ⟨rfl, rfl⟩ := Prod.mk.inj (Option.some.inj (hfound'.symm.trans hfirst'))
  exact ⟨_, _, h, hr', (hfind "/b").1 honly, by decide +kernel, ⟨before, t, after, hselects⟩,
    ⟨before', t', after', hselects'⟩, hfound, hfound'⟩

end RoutePattern.Router
