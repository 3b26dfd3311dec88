/-
Which argument a part is given.

`Template.fill` is three steps that hand one list of arguments on to each other:
the format takes from the back, the variables take from the front as long as
there is something to take, and the glob takes what the two have left. What they
hand out is told here at once (`handedOut`), from the names that the captures
leave open: the open variables in order against the arguments in order, and
nothing depends on how far a step before has come.

The three steps do not disturb each other because the names of a template are
distinct, so that what one step has bound is not what the next one looks for.
-/
import RoutePattern.Proofs.Writing

set_option autoImplicit false

namespace RoutePattern

/-- A list with one element at most is its first element. -/
theorem eq_toList_head?_of_length_le {α : Type} {l : List α} (h : l.length ≤ 1) :
    l = l.head?.toList := by
  cases l with
  | nil => rfl
  | cons a l =>
      obtain rfl : l = [] := List.eq_nil_of_length_eq_zero (Nat.le_zero.1 (Nat.le_of_succ_le_succ h))
      rfl

namespace Captures

/-! ## Names bound to texts -/

/-- Names bound to single texts, as far as there are both. -/
def singles (names texts : List String) : List Entry :=
  (names.zip texts).map fun b => (.name b.1, .single b.2)

theorem keys_singles_sublist (names texts : List String) :
    ((singles names texts).map Prod.fst).Sublist (names.map Key.name) := by
  induction names generalizing texts with
  | nil => exact List.Sublist.refl []
  | cons name names ih =>
      cases texts with
      | nil => exact List.nil_sublist _
      | cons text texts => exact (ih texts).cons_cons (Key.name name)

theorem texts_singles (names texts : List String) :
    ((singles names texts).flatMap fun e => e.2.texts) = texts.take names.length := by
  induction names generalizing texts with
  | nil => rfl
  | cons name names ih =>
      cases texts with
      | nil => rfl
      | cons text texts => exact congrArg (text :: ·) (ih texts)

/-- Texts for which there is no name do not count. -/
theorem singles_take (names texts : List String) :
    singles names (texts.take names.length) = singles names texts := by
  induction names generalizing texts with
  | nil => rfl
  | cons name names ih =>
      cases texts with
      | nil => rfl
      | cons text texts => exact congrArg ((Key.name name, Value.single text) :: ·) (ih texts)

/-- A key that is not among those that are set keeps its value. -/
theorem get?_insertAll_of_not_mem {es : List Entry} {k : Key} (h : k ∉ es.map Prod.fst)
    (c : Captures) : (c.insertAll es).get? k = c.get? k := by
  induction es generalizing c with
  | nil => rfl
  | cons e es ih =>
      obtain ⟨hne, hrest⟩ := not_or.1 fun hm => h (List.mem_cons.2 hm)
      rw [insertAll_cons, ih hrest, get?_insert_of_ne c hne]

theorem contains_insertAll_of_not_mem {es : List Entry} {k : Key} (h : k ∉ es.map Prod.fst)
    (c : Captures) : (c.insertAll es).contains k = c.contains k := by
  rw [contains, get?_insertAll_of_not_mem h, contains]

end Captures

namespace Template

/-! ## The names that are open -/

/-- The names of one kind of part that have no value yet, in order. -/
def openNames (t : Template) (kind? : Part → Option String) (c : Captures) : List String :=
  (t.parts.filterMap kind?).filter fun name => !c.contains (.name name)

/-- The arguments in front of the one that an open format takes. -/
def frontArgs (t : Template) (args : List String) (c : Captures) : List String :=
  if t.openNames Part.formatName? c = [] then args else args.dropLast

/-- The argument that an open format takes: the last one, if there is any. -/
def lastArg (t : Template) (args : List String) (c : Captures) : List String :=
  if t.openNames Part.formatName? c = [] then [] else args.getLast?.toList

theorem frontArgs_append_lastArg (t : Template) (args : List String) (c : Captures) :
    t.frontArgs args c ++ t.lastArg args c = args := by
  unfold frontArgs lastArg
  split
  · exact List.append_nil args
  · cases hlast : args.getLast? with
    | none =>
        obtain rfl := List.getLast?_eq_none_iff.1 hlast
        rfl
    | some last =>
        obtain ⟨front, rfl⟩ := List.getLast?_eq_some_iff.1 hlast
        simp

/-! ## What is handed out -/

/-- What an open format is given. -/
def forFormat (t : Template) (args : List String) (c : Captures) : List Entry :=
  Captures.singles (t.openNames Part.formatName? c) (t.lastArg args c)

/-- What the open variables are given: the first of them the first argument, and so on. -/
def forVars (t : Template) (args : List String) (c : Captures) : List Entry :=
  Captures.singles (t.openNames Part.varName? c) (t.frontArgs args c)

/-- What an open glob is given: all that stands behind the arguments of the open variables. -/
def forGlob (t : Template) (args : List String) (c : Captures) : List Entry :=
  (t.openNames Part.globName? c).map fun name =>
    (.name name, .list ((t.frontArgs args c).drop (t.openNames Part.varName? c).length))

/-- All that is handed out. -/
def handedOut (t : Template) (args : List String) (c : Captures) : List Entry :=
  t.forFormat args c ++ t.forVars args c ++ t.forGlob args c

/-! ## Names kind by kind -/

/-- Variables come before the glob, and the glob before the format, so the names of a template are
its names **kind by kind**. -/
theorem Regular.names_eq {t : Template} (ht : t.Regular) :
    t.names = t.varNames ++ t.parts.filterMap Part.globName? ++
      t.parts.filterMap Part.formatName? := by
  obtain ⟨rooted, ps⟩ := t
  have hordered : ps.Pairwise Part.MayPrecede := ht.ordered
  clear ht
  simp only [names, varNames]
  induction ps with
  | nil => rfl
  | cons p ps ih =>
      obtain ⟨hp, hps⟩ := List.pairwise_cons.1 hordered
      specialize ih hps
      cases p with
      | literal text => exact ih
      | var name => exact congrArg (name :: ·) ih
      | glob name =>
          -- neither a variable nor a glob stands behind a glob
          have hvars : ps.filterMap Part.varName? = [] := by
            refine List.filterMap_eq_nil_iff.2 fun q hq => ?_
            have := ((hp q hq).2 rfl).1
            cases q <;> simp_all [Part.varName?]
          rw [hvars] at ih
          change name :: ps.filterMap Part.name? = ps.filterMap Part.varName? ++
            name :: ps.filterMap Part.globName? ++ ps.filterMap Part.formatName?
          rw [hvars, ih]
          rfl
      | format name =>
          obtain rfl := Part.eq_nil_of_format_mayPrecede hp
          rfl

/-! ## The three steps -/

/-- Of a kind that there is one part of at most, the open name is that of the part that is looked
for. -/
theorem openNames_of_length_le {t : Template} {kind? : Part → Option String}
    (h : (t.parts.filterMap kind?).length ≤ 1) (c : Captures) :
    t.openNames kind? c =
      (t.parts.findSome? kind?).toList.filter fun name => !c.contains (.name name) := by
  rw [openNames, eq_toList_head?_of_length_le h, List.head?_filterMap]

theorem Regular.openNames_formatName? {t : Template} (ht : t.Regular) (c : Captures) :
    t.openNames Part.formatName? c =
      (t.parts.findSome? Part.formatName?).toList.filter fun name => !c.contains (.name name) := by
  have hlength : (t.parts.filterMap Part.formatName?).length ≤ 1 := by
    rw [List.length_filterMap_eq_countP, List.countP_eq_length_filter]
    exact (Part.filter_append_filter_of_pairwise ht.ordered).2
  exact openNames_of_length_le hlength c

theorem Regular.openNames_globName? {t : Template} (ht : t.Regular) (c : Captures) :
    t.openNames Part.globName? c =
      (t.parts.findSome? Part.globName?).toList.filter fun name => !c.contains (.name name) := by
  have hkind : (fun p : Part => p.globName?.isSome) = Part.isGlob := by
    funext p
    cases p <;> rfl
  have hlength : (t.parts.filterMap Part.globName?).length ≤ 1 := by
    rw [List.length_filterMap_eq_countP, List.countP_eq_length_filter, hkind]
    exact ht.glob_once
  exact openNames_of_length_le hlength c

theorem Regular.fillFormat_eq {t : Template} (ht : t.Regular) (args : List String)
    (c : Captures) :
    t.fillFormat args c = (t.frontArgs args c, c.insertAll (t.forFormat args c)) := by
  unfold fillFormat frontArgs forFormat lastArg
  rw [ht.openNames_formatName?]
  cases t.parts.findSome? Part.formatName? with
  | none => rfl
  | some name =>
      by_cases hc : c.contains (.name name) = true
      · -- a bound format takes nothing
        cases args.getLast? <;> simp [hc, Captures.singles]
      · cases hlast : args.getLast? with
        | none =>
            obtain rfl := List.getLast?_eq_none_iff.1 hlast
            simp [hc, Captures.singles]
        | some last => simp [hc, Captures.singles]

/-- Names take arguments as if the open ones had been picked out before. That a name is bound on the
way does not matter to the others, which are different. -/
theorem fillVars_eq {names : List String} (h : names.Nodup) (args : List String) (c : Captures) :
    fillVars names args c =
      (args.drop (names.filter fun name => !c.contains (.name name)).length,
        c.insertAll
          (Captures.singles (names.filter fun name => !c.contains (.name name)) args)) := by
  induction names generalizing args c with
  | nil => cases args <;> rfl
  | cons name names ih =>
      obtain ⟨hname, hrest⟩ := List.nodup_cons.1 h
      cases args with
      | nil => simp [fillVars, Captures.singles]
      | cons arg args =>
          rw [fillVars]
          by_cases hc : c.contains (.name name) = true
          · rw [if_pos hc, List.filter_cons_of_neg (by simp [hc]), ih hrest]
          · have hsame : (names.filter fun other => !(c.insert (.name name) (.single arg)).contains
                (.name other)) = names.filter fun other => !c.contains (.name other) := by
              refine List.filter_congr fun other ho => ?_
              have hne : Key.name other ≠ Key.name name := fun e =>
                hname (Key.name.inj e ▸ ho)
              rw [Captures.contains, Captures.get?_insert_of_ne c hne, Captures.contains]
            rw [if_neg hc, List.filter_cons_of_pos (by simp [hc]), ih hrest, hsame]
            rfl

theorem Regular.fillGlob_eq {t : Template} (ht : t.Regular) (args : List String) (c : Captures) :
    t.fillGlob args c =
      c.insertAll ((t.openNames Part.globName? c).map fun name => (.name name, .list args)) := by
  unfold fillGlob bindIfFree
  rw [ht.openNames_globName?]
  cases t.parts.findSome? Part.globName? with
  | none => rfl
  | some name =>
      by_cases hc : c.contains (.name name) = true
      · simp [hc]
      · simp [hc]

/-! ## All three together -/

/-- Values under other names open no name and close none. -/
theorem openNames_insertAll {t : Template} {kind? : Part → Option String} {es : List Entry}
    (h : ∀ name ∈ t.parts.filterMap kind?, Key.name name ∉ es.map Prod.fst) (c : Captures) :
    t.openNames kind? (c.insertAll es) = t.openNames kind? c := by
  refine List.filter_congr fun name hname => ?_
  rw [Captures.contains_insertAll_of_not_mem (h name hname)]

theorem keys_forFormat_sublist (t : Template) (args : List String) (c : Captures) :
    ((t.forFormat args c).map Prod.fst).Sublist
      ((t.parts.filterMap Part.formatName?).map Key.name) :=
  (Captures.keys_singles_sublist _ _).trans (List.filter_sublist.map Key.name)

theorem keys_forVars_sublist (t : Template) (args : List String) (c : Captures) :
    ((t.forVars args c).map Prod.fst).Sublist (t.varNames.map Key.name) :=
  (Captures.keys_singles_sublist _ _).trans (List.filter_sublist.map Key.name)

theorem keys_forGlob_sublist (t : Template) (args : List String) (c : Captures) :
    ((t.forGlob args c).map Prod.fst).Sublist
      ((t.parts.filterMap Part.globName?).map Key.name) := by
  rw [forGlob, List.map_map]
  exact List.filter_sublist.map Key.name

/-- What is handed out goes to the names of the template, each once and **in their order**. -/
theorem Regular.keys_given_sublist {t : Template} (ht : t.Regular) (args : List String)
    (c : Captures) :
    ((t.forVars args c ++ t.forGlob args c ++ t.forFormat args c).map Prod.fst).Sublist
      (t.names.map Key.name) := by
  rw [ht.names_eq, List.map_append, List.map_append, List.map_append, List.map_append]
  exact ((t.keys_forVars_sublist args c).append (t.keys_forGlob_sublist args c)).append
    (t.keys_forFormat_sublist args c)

/-- The steps one after the other hand out what is handed out at once. -/
theorem Regular.fill_eq {t : Template} (ht : t.Regular) (hnames : t.names.Nodup)
    (args : List String) (c : Captures) :
    t.fill args c = c.insertAll (t.handedOut args c) := by
  rw [ht.names_eq, List.nodup_append, List.nodup_append] at hnames
  obtain ⟨⟨hvars, -, hglob⟩, -, hformat⟩ := hnames
  -- names of different kinds are different, so no step opens or closes a name of another one
  have hvarsOpen : t.openNames Part.varName? (c.insertAll (t.forFormat args c)) =
      t.openNames Part.varName? c := by
    refine openNames_insertAll (fun name hname hm => ?_) c
    obtain ⟨other, ho, hk⟩ := List.mem_map.1 ((t.keys_forFormat_sublist args c).subset hm)
    exact hformat name (List.mem_append_left _ hname) other ho (Key.name.inj hk).symm
  have hglobOpen : t.openNames Part.globName?
      ((c.insertAll (t.forFormat args c)).insertAll (t.forVars args c)) =
        t.openNames Part.globName? c := by
    rw [openNames_insertAll, openNames_insertAll]
    · intro name hname hm
      obtain ⟨other, ho, hk⟩ := List.mem_map.1 ((t.keys_forFormat_sublist args c).subset hm)
      exact hformat name (List.mem_append_right _ hname) other ho (Key.name.inj hk).symm
    · intro name hname hm
      obtain ⟨other, ho, hk⟩ := List.mem_map.1 ((t.keys_forVars_sublist args c).subset hm)
      exact hglob other ho name hname (Key.name.inj hk)
  have hfillVars : fillVars t.varNames (t.frontArgs args c) (c.insertAll (t.forFormat args c)) =
      ((t.frontArgs args c).drop (t.openNames Part.varName? c).length,
        (c.insertAll (t.forFormat args c)).insertAll (t.forVars args c)) := by
    rw [forVars, ← hvarsOpen]
    exact fillVars_eq hvars (t.frontArgs args c) (c.insertAll (t.forFormat args c))
  rw [fill, ht.fillFormat_eq]
  simp only [hfillVars]
  rw [ht.fillGlob_eq, hglobOpen, handedOut, Captures.insertAll_append, Captures.insertAll_append]
  rfl

theorem not_mem_keys_of_mem_openNames {t : Template} {kind? : Part → Option String} {c : Captures}
    {name : String} (h : name ∈ t.openNames kind? c) : Key.name name ∉ c.keys := by
  have hopen : c.contains (.name name) = false := by simpa using (List.mem_filter.1 h).2
  intro hm
  obtain ⟨v, hv⟩ := Captures.mem_keys_iff.1 hm
  simp [Captures.contains, hv] at hopen

/-- No name is handed anything that has a value already. -/
theorem not_mem_keys_handedOut {t : Template} {args : List String} {c : Captures} {k : Key}
    (hk : k ∈ (t.handedOut args c).map Prod.fst) : k ∉ c.keys := by
  have hsingles : ∀ {kind? : Part → Option String} {texts : List String},
      k ∈ (Captures.singles (t.openNames kind? c) texts).map Prod.fst → k ∉ c.keys := by
    intro kind? texts hm
    obtain ⟨name, hn, rfl⟩ := List.mem_map.1 ((Captures.keys_singles_sublist _ _).subset hm)
    exact not_mem_keys_of_mem_openNames hn
  rw [handedOut, List.map_append, List.map_append, List.mem_append, List.mem_append] at hk
  rcases hk with (hformat | hvars) | hglob
  · exact hsingles hformat
  · exact hsingles hvars
  · rw [forGlob, List.map_map] at hglob
    obtain ⟨name, hn, rfl⟩ := List.mem_map.1 hglob
    exact not_mem_keys_of_mem_openNames hn

/-- What is handed out comes behind what there is. -/
theorem Regular.entries_handedOut {t : Template} (ht : t.Regular) (hnames : t.names.Nodup)
    (args : List String) (c : Captures) :
    (c.insertAll (t.handedOut args c)).entries = c.entries ++ t.handedOut args c := by
  have hperm : (t.handedOut args c).Perm
      (t.forVars args c ++ t.forGlob args c ++ t.forFormat args c) := by
    rw [handedOut, List.append_assoc]
    exact List.perm_append_comm
  have hnodup : ((t.handedOut args c).map Prod.fst).Nodup :=
    (hperm.map Prod.fst).nodup_iff.2
      ((nodup_keys_names hnames).sublist (ht.keys_given_sublist args c))
  exact Captures.entries_insertAll hnodup fun k hk => not_mem_keys_handedOut hk

/-! ## The arguments that are used -/

/-- The open variables take the arguments in front, a glob what stands between, and the format the
last one: each argument goes to one of them, **in their order**. -/
theorem Regular.texts_given_sublist {t : Template} (ht : t.Regular) (args : List String)
    (c : Captures) :
    ((t.forVars args c ++ t.forGlob args c ++ t.forFormat args c).flatMap
      fun e => e.2.texts).Sublist args := by
  have hvars : ((t.forVars args c).flatMap fun e => e.2.texts).Sublist
      ((t.frontArgs args c).take (t.openNames Part.varName? c).length) := by
    simp only [forVars, Captures.texts_singles, List.Sublist.refl]
  have hglob : ((t.forGlob args c).flatMap fun e => e.2.texts).Sublist
      ((t.frontArgs args c).drop (t.openNames Part.varName? c).length) := by
    rw [forGlob, ht.openNames_globName?]
    cases t.parts.findSome? Part.globName? with
    | none => exact List.nil_sublist _
    | some name =>
        by_cases hc : c.contains (.name name) = true
        · simp [hc]
        · simp [hc, Value.texts]
  have hformat : ((t.forFormat args c).flatMap fun e => e.2.texts).Sublist (t.lastArg args c) := by
    rw [forFormat, Captures.texts_singles]
    exact List.take_sublist _ _
  have hall := (hvars.append hglob).append hformat
  rw [List.take_append_drop, frontArgs_append_lastArg] at hall
  rw [List.flatMap_append, List.flatMap_append]
  exact hall

/-- The arguments behind those of the open variables, where no glob is open for them. -/
theorem handedOut_replace {t : Template} {args : List String} {c : Captures}
    (hglob : t.openNames Part.globName? c = [])
    (hleft : (t.openNames Part.varName? c).length < (t.frontArgs args c).length)
    (others : List String) :
    t.handedOut ((t.frontArgs args c).take (t.openNames Part.varName? c).length ++ others ++
      t.lastArg args c) c = t.handedOut args c := by
  generalize hV : t.openNames Part.varName? c = V at hleft ⊢
  generalize hfront : t.frontArgs args c = front at hleft ⊢
  generalize hlast : t.lastArg args c = last
  -- the last argument is the one of the format again
  have hsplit : t.frontArgs (front.take V.length ++ others ++ last) c =
      front.take V.length ++ others ∧
        t.lastArg (front.take V.length ++ others ++ last) c = last := by
    subst hfront hlast
    unfold frontArgs lastArg at *
    split
    · simp
    · next hformat =>
      rw [if_neg hformat] at hleft
      have hne : args ≠ [] := by
        rintro rfl
        exact absurd hleft (by simp)
      rw [List.getLast?_eq_some_getLast hne]
      simp
  have htake : Captures.singles V (front.take V.length ++ others) = Captures.singles V front := by
    have hlength : V.length ≤ (front.take V.length).length := by
      rw [List.length_take]
      omega
    rw [← Captures.singles_take, List.take_append_of_le_length hlength, List.take_take,
      Nat.min_self, Captures.singles_take]
  rw [handedOut, handedOut, forFormat, forFormat, forVars, forVars, forGlob, forGlob, hglob,
    hsplit.1, hsplit.2, hV, hfront, hlast, htake]
  rfl

/-! ## Rendering with arguments -/

/-- After handing out, nothing is open that could be filled, so it is rendered as it is. -/
theorem Regular.renderWith_eq {t : Template} (ht : t.Regular) (hnames : t.names.Nodup)
    (args : List String) (c : Captures) :
    t.renderWith args c = t.render (c.insertAll (t.handedOut args c)) := by
  have hbound : t.GlobBound (t.fill args c) := by
    intro name hglob
    have hfind := ht.findSome?_globName? hglob
    rw [fill, Captures.contains, get?_fillGlob, hfind, Option.isSome_or]
    simp
  rw [← ht.fill_eq hnames, render_eq, hbound.fillGlob_eq, renderWith]

/-- Rendering with arguments is **rendering with the captures that they are handed out to**: behind
the captures there are, an open format is bound to the last argument, the open variables to the
arguments in front one by one, and an open glob to those that remain. So what is bound already stays
bound as it is, and the parts take arguments in their own order, no argument twice. Where no glob is
open, the arguments that remain may as well be others. -/
theorem renderWith_eq_render_handedOut {t : Template} (h : t.Reachable) (hnames : t.names.Nodup)
    (args : List String) (c : Captures) :
    t.renderWith args c = t.render (c.insertAll (t.handedOut args c)) ∧
    (c.insertAll (t.handedOut args c)).entries = c.entries ++ t.handedOut args c ∧
    (∀ k v, c.get? k = some v → (c.insertAll (t.handedOut args c)).get? k = some v) ∧
    ((t.forVars args c ++ t.forGlob args c ++ t.forFormat args c).map Prod.fst).Sublist
      (t.names.map Key.name) ∧
    ((t.forVars args c ++ t.forGlob args c ++ t.forFormat args c).flatMap
      fun e => e.2.texts).Sublist args ∧
    (t.openNames Part.globName? c = [] →
      (t.openNames Part.varName? c).length < (t.frontArgs args c).length →
        ∀ others, t.renderWith ((t.frontArgs args c).take (t.openNames Part.varName? c).length ++
          others ++ t.lastArg args c) c = t.renderWith args c) := by
  have ht := h.regular
  refine ⟨ht.renderWith_eq hnames args c, ht.entries_handedOut hnames args c, ?_,
    ht.keys_given_sublist args c, ht.texts_given_sublist args c, ?_⟩
  · intro k v hv
    have hk : k ∉ (t.handedOut args c).map Prod.fst := fun hm =>
      not_mem_keys_handedOut hm (Captures.mem_keys_iff.2 ⟨v, hv⟩)
    rw [Captures.get?_insertAll_of_not_mem hk, hv]
  · intro hglob hleft others
    rw [ht.renderWith_eq hnames, ht.renderWith_eq hnames, handedOut_replace hglob hleft]

/-- The first variable is bound, and a key of the query that is named like the second one does not
bind that. The glob takes two arguments where it is open, and where it is bound they are left over. -/
theorem renderWith_eq_render_handedOut_pages :
    ∃ (t : Template) (c d : Captures), ofPattern "/:root/x/:page/*path.format" = .ok t ∧
      c.entries = [(.query "page", .single "9"), (.name "root", .single "r")] ∧
      (c.insertAll (t.handedOut ["p", "a", "b", "html"] c)).entries = c.entries ++
        [(.name "format", .single "html"), (.name "page", .single "p"),
          (.name "path", .list ["a", "b"])] ∧
      t.renderWith ["p", "a", "b", "html"] c = "/r/x/p/a/b.html?page=9" ∧
      d = c.insert (.name "path") (.list ["q"]) ∧
      t.renderWith ["p", "a", "b", "html"] d = "/r/x/p/q.html?page=9" ∧
      t.renderWith ["p", "other", "html"] d = t.renderWith ["p", "a", "b", "html"] d := by
  let t : Template := ⟨true, [.var "root", .literal "x", .var "page", .glob "path", .format "format"]⟩
  let c : Captures := ⟨[(.query "page", .single "9"), (.name "root", .single "r")]⟩
  let d : Captures := c.insert (.name "path") (.list ["q"])
  have h : ofPattern "/:root/x/:page/*path.format" = .ok t := rfl
  have hnames : t.names.Nodup := by decide
  obtain ⟨hrender, hentries, -⟩ :=
    renderWith_eq_render_handedOut (.ofPattern h) hnames ["p", "a", "b", "html"] c
  obtain ⟨hrender', -, -, -, -, hleft⟩ :=
    renderWith_eq_render_handedOut (.ofPattern h) hnames ["p", "a", "b", "html"] d
  have hfilled : t.render (c.insertAll (t.handedOut ["p", "a", "b", "html"] c)) =
      "/r/x/p/a/b.html?page=9" := by decide +kernel
  have hfilled' : t.render (d.insertAll (t.handedOut ["p", "a", "b", "html"] d)) =
      "/r/x/p/q.html?page=9" := by decide +kernel
  exact ⟨t, c, d, h, rfl, hentries, hrender.trans hfilled, rfl, hrender'.trans hfilled',
    hleft (by decide) (by decide) ["other"]⟩

end Template

end RoutePattern
