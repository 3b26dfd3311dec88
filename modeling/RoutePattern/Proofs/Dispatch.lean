/-
Dispatch over whole runs of a router.

A run is a list of calls, and what a call does is said once (`Effect`): it
changes nothing, it adds one route at the end, it changes the datum of the first
route that matches, or it removes all routes. From that follows what a run leaves
behind. The routes of a router never change places, so "the first route that
matches" means the same route before and after any call but the one that removes
it, and a datum can be followed through the run: it is the one that came with its
route, changed by those calls that met this route first.

The calls behind the last clear meet an empty router (`exists_append_sinceClear`),
so the inductions below are about runs without clears.
-/
import Mathlib.Data.List.DropRight
import RoutePattern.Proofs.Shape

set_option autoImplicit false

namespace RoutePattern

theorem Template.accepts_of_capture? {t : Template} {s : String} {c : Captures}
    (h : t.capture? s = some c) : t.accepts s = true := by
  unfold accepts
  rw [h]
  rfl

theorem Template.accepts_of_capture?_eq_none {t : Template} {s : String}
    (h : t.capture? s = none) : t.accepts s = false := by
  unfold accepts
  rw [h]
  rfl

namespace Router

variable {α : Type}

/-! ## The first route that matches an input -/

/-- A router whose first route that matches an input stands between `before` and `after`. -/
structure Selects (r : Router α) (input : String) (before : List (Template × α)) (t : Template)
    (a : α) (after : List (Template × α)) (c : Captures) : Prop where
  routes_eq : r.routes = before ++ (t, a) :: after
  captures : t.capture? input = some c
  first : ∀ route ∈ before, route.1.capture? input = none

/-- The place of the first route that matches an input. -/
def place? (r : Router α) (input : String) : Option Nat :=
  r.routes.findIdx? fun route => route.1.accepts input

theorem find?_eq_none_iff {r : Router α} {input : String} :
    r.find? input = none ↔ ∀ t ∈ r.templates, t.capture? input = none := by
  unfold find? templates
  simp [List.findSome?_eq_none_iff]

/-- What is found comes from the first route that matches. -/
theorem find?_eq_some_iff {r : Router α} {input : String} {a : α} {c : Captures} :
    r.find? input = some (a, c) ↔ ∃ before t after, r.Selects input before t a after c := by
  unfold find?
  rw [List.findSome?_eq_some_iff]
  constructor
  · rintro ⟨before, ⟨t, b⟩, after, hroutes, hmatch, hfirst⟩
    obtain ⟨d, hd, heq⟩ := Option.map_eq_some_iff.1 hmatch
    obtain ⟨rfl, rfl⟩ := Prod.mk.inj heq
    exact ⟨before, t, after, hroutes, hd, fun route hr => by simpa using hfirst route hr⟩
  · rintro ⟨before, t, after, hroutes, hc, hfirst⟩
    refine ⟨before, (t, a), after, hroutes, ?_, fun route hr => ?_⟩
    · rw [hc]
      rfl
    · rw [hfirst route hr]
      rfl

/-- A route is found unless no template matches. -/
theorem selects_or_forall_none (r : Router α) (input : String) :
    (∃ before t a after c, r.Selects input before t a after c) ∨
      ∀ t ∈ r.templates, t.capture? input = none := by
  cases h : r.find? input with
  | none => exact .inr (find?_eq_none_iff.1 h)
  | some found =>
      obtain ⟨before, t, after, hselects⟩ := find?_eq_some_iff.1 h
      exact .inl ⟨before, t, found.1, after, found.2, hselects⟩

theorem place?_eq_none {r : Router α} {input : String}
    (h : ∀ t ∈ r.templates, t.capture? input = none) : r.place? input = none := by
  unfold place?
  apply List.findIdx?_eq_none_iff.2
  intro route hroute
  exact Template.accepts_of_capture?_eq_none (h _ (List.mem_map_of_mem hroute))

/-- Routes that do not match are passed over. -/
theorem modifyFirst_append {before : List (Template × α)} {input : String}
    (h : ∀ route ∈ before, route.1.capture? input = none) (f : α → α)
    (rest : List (Template × α)) :
    modifyFirst f input (before ++ rest) = before ++ modifyFirst f input rest := by
  induction before with
  | nil => rfl
  | cons route before ih =>
      obtain ⟨t, a⟩ := route
      have ht := Template.accepts_of_capture?_eq_none (h (t, a) List.mem_cons_self)
      have hrest := ih fun route hr => h route (List.mem_cons_of_mem _ hr)
      rw [List.cons_append, modifyFirst, if_neg (by simp [ht]), hrest]
      rfl

theorem modify_eq_self {r : Router α} {input : String}
    (h : ∀ t ∈ r.templates, t.capture? input = none) (f : α → α) : r.modify f input = r := by
  obtain ⟨routes⟩ := r
  have hall := modifyFirst_append (fun route hr => h _ (List.mem_map_of_mem hr)) f []
  rw [List.append_nil] at hall
  unfold modify
  rw [hall]
  exact congrArg Router.mk (List.append_nil routes)

section Selects

variable {r : Router α} {input : String} {before after : List (Template × α)} {t : Template}
  {a : α} {c : Captures}

theorem Selects.find?_eq (h : r.Selects input before t a after c) :
    r.find? input = some (a, c) :=
  find?_eq_some_iff.2 ⟨before, t, after, h⟩

theorem Selects.place?_eq (h : r.Selects input before t a after c) :
    r.place? input = some before.length := by
  have hnone : before.findIdx? (fun route => route.1.accepts input) = none := by
    apply List.findIdx?_eq_none_iff.2
    exact fun route hr => Template.accepts_of_capture?_eq_none (h.first route hr)
  unfold place?
  rw [h.routes_eq, List.findIdx?_append, hnone, List.findIdx?_cons,
    Template.accepts_of_capture? h.captures]
  simp

/-- A change reaches the route that is found, and the same route is found afterwards. -/
theorem Selects.modify (h : r.Selects input before t a after c) (f : α → α) :
    (r.modify f input).Selects input before t (f a) after c := by
  refine ⟨?_, h.captures, h.first⟩
  change modifyFirst f input r.routes = _
  rw [h.routes_eq, modifyFirst_append h.first, modifyFirst,
    if_pos (Template.accepts_of_capture? h.captures)]

end Selects

theorem findModifyFirst?_eq (f : α → α) (input : String) (routes : List (Template × α)) :
    findModifyFirst? f input routes =
      (routes.findSome? fun route => (route.1.capture? input).map fun c => (route.2, c)).map
        fun found => (found, modifyFirst f input routes) := by
  induction routes with
  | nil => rfl
  | cons route rest ih =>
      obtain ⟨t, a⟩ := route
      rw [findModifyFirst?, modifyFirst, List.findSome?_cons]
      cases hc : t.capture? input with
      | some c => simp [Template.accepts_of_capture? hc]
      | none =>
          simp only [Option.map_none]
          rw [if_neg (by simp [Template.accepts_of_capture?_eq_none hc]), ih, Option.map_map]
          rfl

/-- Finding and changing in one pass gives **what `find?` gives, and the table that `modify`
gives**. -/
theorem findModify?_eq (r : Router α) (f : α → α) (input : String) :
    r.findModify? f input = (r.find? input).map fun found => (found, r.modify f input) := by
  rw [findModify?, findModifyFirst?_eq, Option.map_map]
  rfl

/-- A change reaches one place at most. -/
theorem getElem?_routes_modify (r : Router α) (f : α → α) (input : String) (i : Nat) :
    (r.modify f input).routes[i]? = r.routes[i]?.map fun route =>
      if r.place? input = some i then (route.1, f route.2) else route := by
  rcases r.selects_or_forall_none input with ⟨before, t, a, after, c, hselects⟩ | hnone
  · rw [(hselects.modify f).routes_eq, hselects.routes_eq, hselects.place?_eq]
    have hne : i ≠ before.length → ¬ some before.length = some i :=
      fun h e => h (Option.some.inj e).symm
    rcases Nat.lt_trichotomy i before.length with hi | rfl | hi
    · simp [hne (by omega), List.getElem?_append_left hi]
    · simp
    · obtain ⟨n, rfl⟩ : ∃ n, i = before.length + (n + 1) := ⟨i - before.length - 1, by omega⟩
      simp [hne (by omega), List.getElem?_append_right]
  · rw [modify_eq_self hnone, place?_eq_none hnone]
    simp

/-! ## Calls -/

/-- A call on a router. -/
inductive Call (α : Type) where
  | insert (pattern : String) (datum : α)
  | insertTemplate (t : Template) (datum : α)
  | find (input : String)
  | modify (input : String) (f : α → α)
  | clear

/-- Whether a call removes all routes. -/
def Call.isClear : Call α → Bool
  | .clear => true
  | _ => false

/-- The router after a call, if the call is not refused. -/
def attempt (r : Router α) : Call α → Except InsertFault (Router α)
  | .insert pattern datum => r.insert pattern datum
  | .insertTemplate t datum => r.insertTemplate t datum
  | .find _ => .ok r
  | .modify input f => .ok (r.modify f input)
  | .clear => .ok r.clear

/-- The router after a call. A call that is refused leaves it as it is. -/
def step (r : Router α) (call : Call α) : Router α :=
  match r.attempt call with
  | .ok r' => r'
  | .error _ => r

/-- The router after many calls. -/
def run (r : Router α) (calls : List (Call α)) : Router α := calls.foldl step r

@[simp] theorem run_nil (r : Router α) : run r [] = r := rfl

@[simp] theorem run_cons (r : Router α) (call : Call α) (calls : List (Call α)) :
    run r (call :: calls) = run (r.step call) calls := rfl

theorem run_append (r : Router α) (calls calls' : List (Call α)) :
    run r (calls ++ calls') = run (run r calls) calls' :=
  List.foldl_append

/-- The route that a call asks for. -/
def Call.route? : Call α → Option (Template × α)
  | .insert pattern datum => (Template.ofPattern pattern).toOption.map fun t => (t, datum)
  | .insertTemplate t datum => some (t, datum)
  | _ => none

/-- The route that a call adds. -/
def added? (r : Router α) (call : Call α) : Option (Template × α) :=
  match r.attempt call with
  | .ok _ => call.route?
  | .error _ => none

/-- What a call does to the datum of the route at a place. -/
def change? (i : Nat) (r : Router α) : Call α → Option (α → α)
  | .modify input f => if r.place? input = some i then some f else none
  | _ => none

/-! ## What one call can do -/

/-- A call that is refused asks for a route, of a pattern that does not compile or of a shape that
is there. -/
theorem attempt_eq_error {r : Router α} {call : Call α} {fault : InsertFault}
    (h : r.attempt call = .error fault) :
    (∃ pattern datum e, call = .insert pattern datum ∧ Template.ofPattern pattern = .error e ∧
      fault = .pattern e) ∨
    ∃ t a, call.route? = some (t, a) ∧ t.shape ∈ r.shapes ∧ fault = .collision := by
  have hcollision : ∀ {t : Template} {a : α}, r.insertTemplate t a = .error fault →
      t.shape ∈ r.shapes ∧ fault = .collision := by
    intro t a ht
    unfold insertTemplate at ht
    split at ht
    · next hmem => exact ⟨hmem, (Except.error.inj ht).symm⟩
    · exact absurd ht (by simp)
  cases call with
  | insert pattern datum =>
      cases hp : Template.ofPattern pattern with
      | error e =>
          refine .inl ⟨pattern, datum, e, rfl, hp, ?_⟩
          simp only [attempt, insert, hp, Except.mapError, Except.bind] at h
          exact (Except.error.inj h).symm
      | ok t =>
          simp only [attempt, insert, hp, Except.mapError, Except.bind] at h
          refine .inr ⟨t, datum, ?_, hcollision h⟩
          simp [Call.route?, hp, Except.toOption]
  | insertTemplate t datum => exact .inr ⟨t, datum, rfl, hcollision h⟩
  | find input => exact absurd h (by simp [attempt])
  | modify input f => exact absurd h (by simp [attempt])
  | clear => exact absurd h (by simp [attempt])

/-- A call that is let through and asks for a route adds it. -/
theorem attempt_eq_ok_of_route? {r r' : Router α} {call : Call α} {t : Template} {a : α}
    (h : r.attempt call = .ok r') (hroute : call.route? = some (t, a)) :
    t.shape ∉ r.shapes ∧ r' = ⟨r.routes ++ [(t, a)]⟩ := by
  apply insertTemplate_eq_ok_iff.1
  cases call with
  | insert pattern datum =>
      obtain ⟨u, hu, hinsert⟩ := exists_of_insert_eq_ok h
      obtain ⟨rfl, rfl⟩ : u = t ∧ datum = a := by
        simpa [Call.route?, hu, Except.toOption] using hroute
      exact hinsert
  | insertTemplate u datum =>
      obtain ⟨rfl, rfl⟩ : u = t ∧ datum = a := by simpa [Call.route?] using hroute
      exact h
  | find input => exact absurd hroute (by simp [Call.route?])
  | modify input f => exact absurd hroute (by simp [Call.route?])
  | clear => exact absurd hroute (by simp [Call.route?])

theorem step_of_attempt_eq_error {r : Router α} {call : Call α} {fault : InsertFault}
    (h : r.attempt call = .error fault) : r.step call = r := by
  unfold step
  rw [h]

theorem step_of_added? {r : Router α} {call : Call α} {t : Template} {a : α}
    (h : r.added? call = some (t, a)) :
    t.shape ∉ r.shapes ∧ r.step call = ⟨r.routes ++ [(t, a)]⟩ := by
  unfold added? at h
  unfold step
  cases hattempt : r.attempt call with
  | error fault =>
      rw [hattempt] at h
      exact absurd h (by simp)
  | ok r' =>
      rw [hattempt] at h
      exact attempt_eq_ok_of_route? hattempt h

/-- What a call can do. -/
inductive Effect (r : Router α) (call : Call α) : Prop where
  /-- It adds a route at the end. -/
  | adds (t : Template) (a : α) (hadded : r.added? call = some (t, a))
      (hchange : ∀ i, change? i r call = none) (hshape : t.shape ∉ r.shapes)
      (hstep : r.step call = ⟨r.routes ++ [(t, a)]⟩)
  /-- It looks something up or is refused. -/
  | keeps (hadded : r.added? call = none) (hchange : ∀ i, change? i r call = none)
      (hstep : r.step call = r)
  /-- It changes a datum. -/
  | changes (input : String) (f : α → α) (hcall : call = .modify input f)
      (hstep : r.step call = r.modify f input)
  /-- It removes all routes. -/
  | clears (hcall : call = .clear) (hstep : r.step call = empty)

/-- A call that asks for a route adds it or is refused. -/
theorem effect_of_route? {r : Router α} {call : Call α} (hchange : ∀ i, change? i r call = none)
    (hroute : ∀ r', r.attempt call = .ok r' → ∃ route, call.route? = some route) :
    r.Effect call := by
  cases hadded : r.added? call with
  | some route =>
      obtain ⟨hshape, hstep⟩ := step_of_added? hadded
      exact .adds route.1 route.2 hadded hchange hshape hstep
  | none =>
      refine .keeps hadded hchange ?_
      cases hattempt : r.attempt call with
      | error fault => exact step_of_attempt_eq_error hattempt
      | ok r' =>
          obtain ⟨route, hroute⟩ := hroute r' hattempt
          exact absurd hadded (by simp [added?, hattempt, hroute])

/-- Every call does one of these. -/
theorem effect (r : Router α) (call : Call α) : r.Effect call := by
  cases call with
  | insert pattern datum =>
      apply effect_of_route? (fun i => rfl)
      intro r' h
      -- what is let through has compiled
      obtain ⟨t, ht, -⟩ := exists_of_insert_eq_ok h
      exact ⟨(t, datum), by simp [Call.route?, ht, Except.toOption]⟩
  | insertTemplate t datum => exact effect_of_route? (fun i => rfl) fun r' h => ⟨_, rfl⟩
  | find input => exact .keeps rfl (fun i => rfl) rfl
  | modify input f => exact .changes input f rfl rfl
  | clear => exact .clears rfl rfl

/-! ## The templates -/

/-- No call makes two routes of one shape. -/
theorem nodup_shapes_step {r : Router α} (h : r.shapes.Nodup) (call : Call α) :
    (r.step call).shapes.Nodup := by
  cases r.effect call with
  | adds t a hadded hchange hshape hstep =>
      rw [hstep, shapes, templates, List.map_append, List.map_append, List.nodup_append]
      refine ⟨h, by simp, fun s hs s' hs' e => hshape ?_⟩
      obtain rfl : s' = t.shape := by simpa using hs'
      exact e ▸ hs
  | keeps hadded hchange hstep => rwa [hstep]
  | changes input f hcall hstep => rwa [hstep, shapes, templates_modify]
  | clears hcall hstep =>
      rw [hstep]
      exact List.nodup_nil

theorem nodup_shapes_run {r : Router α} (h : r.shapes.Nodup) (calls : List (Call α)) :
    (run r calls).shapes.Nodup := by
  induction calls generalizing r with
  | nil => exact h
  | cons call calls ih => exact ih (nodup_shapes_step h call)

/-- What the calls of a run show, each of them seen with the router that it meets. -/
def observe {β : Type} (g : Router α → Call α → Option β) : Router α → List (Call α) → List β
  | _, [] => []
  | r, call :: calls => (g r call).toList ++ observe g (r.step call) calls

theorem templates_step (r : Router α) {call : Call α} (hclear : call.isClear = false) :
    (r.step call).templates = r.templates ++ (r.added? call).toList.map Prod.fst := by
  cases r.effect call with
  | adds t a hadded hchange hshape hstep =>
      rw [hstep, hadded, templates, List.map_append]
      rfl
  | keeps hadded hchange hstep =>
      rw [hstep, hadded]
      exact (List.append_nil _).symm
  | changes input f hcall hstep =>
      rw [hstep, hcall, templates_modify]
      exact (List.append_nil _).symm
  | clears hcall hstep =>
      rw [hcall] at hclear
      exact absurd hclear (by simp [Call.isClear])

/-- Without clears, a run puts the routes that it adds behind those that are there. -/
theorem templates_run {calls : List (Call α)} (hclear : ∀ call ∈ calls, call.isClear = false)
    (r : Router α) :
    (run r calls).templates = r.templates ++ (observe added? r calls).map Prod.fst := by
  induction calls generalizing r with
  | nil => exact (List.append_nil _).symm
  | cons call calls ih =>
      have hcall := hclear call List.mem_cons_self
      have hcalls := fun c hc => hclear c (List.mem_cons_of_mem call hc)
      rw [run_cons, ih hcalls, templates_step r hcall, observe, List.map_append,
        List.append_assoc]

/-! ## The data -/

/-- A datum changed by one function after the other. -/
def updated (fs : List (α → α)) (a : α) : α := fs.foldl (fun a f => f a) a

theorem updated_append (fs gs : List (α → α)) (a : α) :
    updated (fs ++ gs) a = updated gs (updated fs a) :=
  List.foldl_append

/-- After a call there is at each place the route that was there, its datum changed if the call is
a change that meets it first; or the place is new and the call has added the route. -/
theorem getElem?_routes_step {r : Router α} {call : Call α} (hclear : call.isClear = false)
    {i : Nat} {t : Template} {b : α} (h : (r.step call).routes[i]? = some (t, b)) :
    (∃ a, r.routes[i]? = some (t, a) ∧ b = updated (change? i r call).toList a) ∨
      r.size = i ∧ r.added? call = some (t, b) := by
  cases r.effect call with
  | adds u a hadded hchange hshape hstep =>
      rw [hstep] at h
      rcases Nat.lt_or_ge i r.routes.length with hi | hi
      · left
        rw [List.getElem?_append_left hi] at h
        rw [hchange]
        exact ⟨b, h, rfl⟩
      · right
        rw [List.getElem?_append_right hi] at h
        have hzero : i - r.routes.length = 0 := by
          by_contra hne
          rw [List.getElem?_eq_none (by simp; omega)] at h
          exact absurd h (by simp)
        rw [hzero] at h
        refine ⟨?_, ?_⟩
        · unfold size
          omega
        · rw [hadded]
          exact h
  | keeps hadded hchange hstep =>
      left
      rw [hstep] at h
      rw [hchange]
      exact ⟨b, h, rfl⟩
  | changes input f hcall hstep =>
      left
      rw [hstep, getElem?_routes_modify] at h
      rw [hcall, change?]
      obtain ⟨⟨u, a⟩, ha, heq⟩ := Option.map_eq_some_iff.1 h
      by_cases hi : r.place? input = some i
      · rw [if_pos hi] at heq ⊢
        obtain ⟨rfl, rfl⟩ := Prod.mk.inj heq
        exact ⟨a, ha, rfl⟩
      · rw [if_neg hi] at heq ⊢
        obtain ⟨rfl, rfl⟩ := Prod.mk.inj heq
        exact ⟨a, ha, rfl⟩
  | clears hcall hstep =>
      rw [hcall] at hclear
      exact absurd hclear (by simp [Call.isClear])

/-- After a run without clears there is at each place the route that was there or one that was added
on the way, its datum changed by the calls that have met it first since. -/
theorem getElem?_routes_run {calls : List (Call α)}
    (hclear : ∀ call ∈ calls, call.isClear = false) {r : Router α} {i : Nat} {t : Template}
    {b : α} (h : (run r calls).routes[i]? = some (t, b)) :
    (∃ a, r.routes[i]? = some (t, a) ∧ b = updated (observe (change? i) r calls) a) ∨
      ∃ before call after a, calls = before ++ call :: after ∧ (run r before).size = i ∧
        (run r before).added? call = some (t, a) ∧
          b = updated (observe (change? i) (run r (before ++ [call])) after) a := by
  induction calls generalizing r with
  | nil => exact .inl ⟨b, h, rfl⟩
  | cons call calls ih =>
      have hcall := hclear call List.mem_cons_self
      have hcalls := fun c hc => hclear c (List.mem_cons_of_mem call hc)
      rcases ih hcalls h with ⟨a', hroute, hb⟩ | ⟨before, call', after, a, rfl, hsize, hadded, hb⟩
      · rcases getElem?_routes_step hcall hroute with ⟨a, ha, rfl⟩ | ⟨hsize, hadded⟩
        · left
          refine ⟨a, ha, ?_⟩
          rw [hb, observe, updated_append]
        · exact .inr ⟨[], call, calls, a', rfl, hsize, hadded, hb⟩
      · exact .inr ⟨call :: before, call', after, a, rfl, hsize, hadded, hb⟩

/-! ## Whole runs -/

/-- The router that calls make of the empty one. -/
def reached (calls : List (Call α)) : Router α := run empty calls

/-- The calls behind the last clear. -/
def sinceClear (calls : List (Call α)) : List (Call α) :=
  calls.rtakeWhile fun call => !call.isClear

theorem reached_concat (calls : List (Call α)) (call : Call α) :
    reached (calls ++ [call]) = (reached calls).step call :=
  run_append _ _ _

/-- The calls behind the last clear meet an empty router. -/
theorem exists_append_sinceClear (calls : List (Call α)) :
    ∃ cleared, calls = cleared ++ sinceClear calls ∧ reached cleared = empty := by
  induction calls using List.reverseRecOn with
  | nil => exact ⟨[], rfl, rfl⟩
  | append_singleton calls call ih =>
      rw [sinceClear, List.rtakeWhile_concat]
      cases hcall : call.isClear with
      | true =>
          refine ⟨calls ++ [call], (List.append_nil _).symm, ?_⟩
          obtain rfl : call = .clear := by cases call <;> simp_all [Call.isClear]
          exact reached_concat calls _
      | false =>
          obtain ⟨cleared, hcalls, hempty⟩ := ih
          refine ⟨cleared, ?_, hempty⟩
          rw [Bool.not_false, if_pos rfl, ← List.append_assoc]
          exact congrArg (· ++ [call]) hcalls

theorem isClear_of_mem_sinceClear {calls : List (Call α)} :
    ∀ call ∈ sinceClear calls, call.isClear = false := by
  intro call hcall
  simpa using List.mem_rtakeWhile_imp hcall

/-- A route that is added is found for the inputs for which nothing was found. -/
theorem find?_step_of_added? {r : Router α} {call : Call α} {t : Template} {a : α}
    (h : r.added? call = some (t, a)) (input : String) :
    (r.step call).find? input =
      (r.find? input).or ((t.capture? input).map fun c => (a, c)) := by
  rw [(step_of_added? h).2]
  unfold find?
  rw [List.findSome?_append, List.findSome?_singleton]

/-- Calls that follow an empty router start anew. -/
theorem reached_append_of_eq_empty {cleared : List (Call α)} (h : reached cleared = empty)
    (calls : List (Call α)) : reached (cleared ++ calls) = run empty calls := by
  have happend : reached (cleared ++ calls) = run (reached cleared) calls := run_append _ _ _
  rw [happend, h]

/-- The templates are those of the routes that were added since the last clear. -/
theorem exists_templates_reached (calls : List (Call α)) :
    ∃ cleared, calls = cleared ++ sinceClear calls ∧ reached cleared = empty ∧
      (reached calls).templates =
        (observe added? (reached cleared) (sinceClear calls)).map Prod.fst := by
  obtain ⟨cleared, hcalls, hempty⟩ := exists_append_sinceClear calls
  refine ⟨cleared, hcalls, hempty, ?_⟩
  have hrun : reached calls = run empty (sinceClear calls) := by
    rw [← reached_append_of_eq_empty hempty, ← hcalls]
  rw [hrun, hempty]
  exact templates_run isClear_of_mem_sinceClear empty

/-- A call that is refused could as well be left out. -/
theorem reached_append_of_attempt_eq_error {calls : List (Call α)} {call : Call α}
    {fault : InsertFault} (h : (reached calls).attempt call = .error fault)
    (later : List (Call α)) : reached (calls ++ call :: later) = reached (calls ++ later) := by
  have hstep : (run empty calls).step call = run empty calls := step_of_attempt_eq_error h
  unfold reached
  rw [run_append, run_append, run_cons, hstep]

/-- A route at the end of a run was added by a call of it that no clear follows, and its datum is
the one of that call, changed by the calls that have met the route first since then. -/
theorem exists_added_of_getElem?_reached {calls : List (Call α)} {i : Nat} {t : Template} {b : α}
    (h : (reached calls).routes[i]? = some (t, b)) :
    ∃ before call after a, calls = before ++ call :: after ∧
      (∀ later ∈ after, later.isClear = false) ∧ (reached before).size = i ∧
      (reached before).added? call = some (t, a) ∧
      b = updated (observe (change? i) (reached (before ++ [call])) after) a := by
  obtain ⟨cleared, hcalls, hempty⟩ := exists_append_sinceClear calls
  have hreached := reached_append_of_eq_empty hempty
  have hclear : ∀ call ∈ sinceClear calls, call.isClear = false := isClear_of_mem_sinceClear
  rw [hcalls, hreached] at h
  rcases getElem?_routes_run hclear h with
    ⟨a, ha, -⟩ | ⟨before, call, after, a, hsince, hsize, hadded, hb⟩
  · exact absurd ha (by simp [empty])
  · rw [hsince] at hcalls hclear
    refine ⟨cleared ++ before, call, after, a, by rw [hcalls, List.append_assoc], ?_, ?_⟩
    · exact fun later hlater =>
        hclear later (List.mem_append_right before (List.mem_cons_of_mem call hlater))
    · rw [List.append_assoc, hreached, hreached]
      exact ⟨hsize, hadded, hb⟩

/-- A run keeps the routes that it has added since the last clear, in this order and in different
shapes, and **every input goes to the first of them that matches**, for looking up, for changing, and
for both in one pass. A call that is refused could as well be left out; a route that is added takes
over only what nobody took before; and a datum is what was inserted with the route, changed by
exactly those calls since then that have met the route first. -/
theorem reached_dispatches (calls : List (Call α)) :
    ((reached calls).shapes.Nodup ∧
      ∃ cleared, calls = cleared ++ sinceClear calls ∧ reached cleared = empty ∧
        (reached calls).templates =
          (observe added? (reached cleared) (sinceClear calls)).map Prod.fst) ∧
    (∀ input,
      (∃ before t a after c, (reached calls).Selects input before t a after c ∧
        (reached calls).place? input = some before.length ∧
        (reached calls).find? input = some (a, c) ∧
        ∀ f, (reached calls).findModify? f input =
            some ((a, c), reached (calls ++ [.modify input f])) ∧
          (reached (calls ++ [.modify input f])).Selects input before t (f a) after c ∧
          (reached (calls ++ [.modify input f])).find? input = some (f a, c)) ∨
      (∀ t ∈ (reached calls).templates, t.capture? input = none) ∧
        (reached calls).place? input = none ∧ (reached calls).find? input = none ∧
        ∀ f, (reached calls).findModify? f input = none ∧
          reached (calls ++ [.modify input f]) = reached calls) ∧
    (∀ call fault, (reached calls).attempt call = .error fault →
      ((∃ pattern datum e, call = .insert pattern datum ∧
          Template.ofPattern pattern = .error e ∧ fault = .pattern e) ∨
        ∃ t a, call.route? = some (t, a) ∧ t.shape ∈ (reached calls).shapes ∧
          fault = .collision) ∧
      ∀ later, reached (calls ++ call :: later) = reached (calls ++ later)) ∧
    (∀ call t a, (reached calls).added? call = some (t, a) → ∀ input,
      (reached (calls ++ [call])).find? input =
        ((reached calls).find? input).or ((t.capture? input).map fun c => (a, c))) ∧
    ∀ i t b, (reached calls).routes[i]? = some (t, b) →
      ∃ before call after a, calls = before ++ call :: after ∧
        (∀ later ∈ after, later.isClear = false) ∧ (reached before).size = i ∧
        (reached before).added? call = some (t, a) ∧
        b = updated (observe (change? i) (reached (before ++ [call])) after) a := by
  refine ⟨⟨nodup_shapes_run (r := empty) List.nodup_nil calls, exists_templates_reached calls⟩, ?_,
    fun call fault h => ⟨attempt_eq_error h, reached_append_of_attempt_eq_error h⟩, ?_,
    fun i t b h => exists_added_of_getElem?_reached h⟩
  · intro input
    have hmodify : ∀ f, reached (calls ++ [.modify input f]) = (reached calls).modify f input :=
      fun f => reached_concat calls _
    rcases (reached calls).selects_or_forall_none input with
      ⟨before, t, a, after, c, hselects⟩ | hnone
    · left
      refine ⟨before, t, a, after, c, hselects, hselects.place?_eq, hselects.find?_eq, ?_⟩
      intro f
      rw [hmodify, findModify?_eq, hselects.find?_eq]
      exact ⟨rfl, hselects.modify f, (hselects.modify f).find?_eq⟩
    · right
      have hfind := find?_eq_none_iff.2 hnone
      refine ⟨hnone, place?_eq_none hnone, hfind, ?_⟩
      intro f
      rw [hmodify, findModify?_eq, hfind, modify_eq_self hnone]
      exact ⟨rfl, rfl⟩
  · intro call t a h input
    rw [reached_concat]
    exact find?_step_of_added? h input

/-- Both routes match `/a`, and the first of them takes the change, and a second change that gives
the datum as it was. A third route is refused for its shape, a fourth one takes what nobody took. -/
theorem reached_dispatches_overlapping :
    ∃ (calls : List (Call Nat)) (t u : Template),
      calls = [.insert "/x" 0, .clear, .insert "/:v" 1, .insert "/a" 2, .modify "/a" (· + 10)] ∧
      Template.ofPattern "/:v" = .ok t ∧ Template.ofPattern "/*rest" = .ok u ∧
      (reached calls).attempt (.insert "/:w" 5) = .error .collision ∧
      (∀ later, reached (calls ++ .insert "/:w" 5 :: later) = reached (calls ++ later)) ∧
      (reached (calls ++ [.insert "/*rest" 7])).find? "/b/c" =
        some (7, ⟨[(.name "rest", .list ["b", "c"])]⟩) ∧
      (reached calls).findModify? (· * 2) "/a" =
        some ((11, ⟨[(.name "v", .single "a")]⟩), reached (calls ++ [.modify "/a" (· * 2)])) ∧
      (reached (calls ++ [.modify "/a" (· * 2)])).find? "/a" =
        some (22, ⟨[(.name "v", .single "a")]⟩) ∧
      (reached calls).routes[0]? = some (t, 11) ∧
      ∃ before call after a, calls = before ++ call :: after ∧
        (∀ later ∈ after, later.isClear = false) ∧ (reached before).size = 0 ∧
        (reached before).added? call = some (t, a) ∧
        11 = updated (observe (change? 0) (reached (before ++ [call])) after) a := by
  let calls : List (Call Nat) :=
    [.insert "/x" 0, .clear, .insert "/:v" 1, .insert "/a" 2, .modify "/a" (· + 10)]
  let t : Template := ⟨true, [.var "v"]⟩
  let u : Template := ⟨true, [.glob "rest"]⟩
  have hrefused : (reached calls).attempt (.insert "/:w" 5) = .error .collision := by
    decide +kernel
  have hadded : (reached calls).added? (.insert "/*rest" 7) = some (u, 7) := by decide +kernel
  have hroute : (reached calls).routes[0]? = some (t, 11) := by decide +kernel
  have hfound : (reached calls).find? "/a" = some (11, ⟨[(.name "v", .single "a")]⟩) := by
    decide +kernel
  obtain ⟨-, hinput, hsame, hfind, hdatum⟩ := reached_dispatches calls
  have hrest : (reached (calls ++ [.insert "/*rest" 7])).find? "/b/c" =
      some (7, ⟨[(.name "rest", .list ["b", "c"])]⟩) := by
    rw [hfind _ _ _ hadded]
    decide +kernel
  rcases hinput "/a" with ⟨before, t', a, after, c, -, -, hfirst, hchange⟩ | ⟨-, -, hnone, -⟩
  · obtain ⟨rfl, rfl⟩ : a = 11 ∧ c = ⟨[(.name "v", .single "a")]⟩ := by
      simpa [hfound] using hfirst.symm
    obtain ⟨hboth, -, hafter⟩ := hchange (· * 2)
    exact ⟨calls, t, u, rfl, rfl, rfl, hrefused, (hsame _ _ hrefused).2, hrest, hboth, hafter,
      hroute, hdatum 0 t 11 hroute⟩
  · rw [hfound] at hnone
    exact absurd hnone (by simp)

end Router

end RoutePattern
