/-
What an absolute URI is matched by.

The text of an absolute URI falls apart at three places: behind the scheme, where
the authority ends, and in front of the fragment. Reading finds these places
again (`parse_text`), because no scheme has a colon, no authority a slash, a
question mark or a hash, and no path and query a hash. So what is matched is the
path and query alone.

An absolute URI without a path names the root. If nothing at all follows its
authority, then the root is what is matched. But a query that follows at once is
matched as it stands, without a slash in front, and that is another input: a
template with a slash in front no longer matches it. Which templates notice is
told by `NeedsPath`. A part other than a glob takes something of the path, and
where there is no path, such a template matches neither of the two inputs.
-/
import RoutePattern.Location
import RoutePattern.Proofs.Shape

set_option autoImplicit false

namespace RoutePattern

namespace Uri

/-! ## Absolute URIs in their components -/

/-- An absolute URI as it is written, in its components. -/
structure AbsoluteForm where
  scheme : String
  authority : String
  /-- The path and query, either of which may be missing. -/
  pathQuery : String
  /-- What stands behind the hash, if there is one. -/
  fragment? : Option String := none
  scheme_chars : ∀ c ∈ scheme.toList, isSchemeChar c = true
  authority_chars : ∀ c ∈ authority.toList, endsAuthority c = false
  pathQuery_start : ∀ c ∈ pathQuery.toList.head?, c = '/' ∨ c = '?'
  hash_not_mem : '#' ∉ pathQuery.toList

theorem forall_not_endsAuthority {s : List Char} (h : s.any endsAuthority = false) :
    ∀ c ∈ s, endsAuthority c = false :=
  fun c hc => Bool.eq_false_iff.2 (List.any_eq_false.1 h c hc)

/-- The text of an absolute URI. -/
def AbsoluteForm.text (w : AbsoluteForm) : String :=
  w.scheme ++ "://" ++ w.authority ++ w.pathQuery ++ (w.fragment?.map ("#" ++ ·)).getD ""

/-- The input that a path and query name. Without a path that is the root. -/
def named (pathQuery : String) : String :=
  if pathQuery.toList.head? = some '/' then pathQuery else "/" ++ pathQuery

/-- A query without a path. -/
def Bare (pathQuery : String) : Prop := pathQuery.toList.head? = some '?'

instance (pathQuery : String) : Decidable (Bare pathQuery) :=
  inferInstanceAs (Decidable (pathQuery.toList.head? = some '?'))

/-! ## Reading them -/

/-- The scheme ends at the first colon. -/
theorem splitScheme?_append {scheme : List Char} (h : ∀ c ∈ scheme, isSchemeChar c = true)
    (rest : List Char) :
    splitScheme? (scheme ++ ':' :: '/' :: '/' :: rest) = some (scheme, rest) := by
  have hcolon : ∀ c ∈ (':' :: '/' :: '/' :: rest).head?, isSchemeChar c = false := by
    rintro c hc
    obtain rfl : ':' = c := by simpa using hc
    decide
  obtain ⟨htake, hdrop⟩ := Text.takeWhile_run h hcolon
  rw [splitScheme?, htake, hdrop]
  rfl

/-- The path and query end at the first hash. -/
theorem readPathQuery_eq_ok {s : List Char} {x : String} (h : readPathQuery s = .ok x) :
    x = String.ofList (Text.cut '#' s).1 := by
  rw [readPathQuery] at h
  split at h
  · exact (Except.ok.inj h).symm
  · exact absurd h (by simp)

/-- What is read behind the scheme. -/
theorem readAbsolute_eq_ok {scheme authority rest : List Char} {u : Uri}
    (h : ∀ c ∈ authority, endsAuthority c = false)
    (hrest : ∀ c ∈ rest.head?, endsAuthority c = true)
    (hu : readAbsolute scheme (authority ++ rest) = .ok u) :
    u = .absolute (String.ofList scheme) (String.ofList authority)
      (String.ofList (Text.cut '#' rest).1) := by
  have hrun : ∀ c ∈ authority, (!endsAuthority c) = true := by simpa using h
  have hstop : ∀ c ∈ rest.head?, (!endsAuthority c) = false := by simpa using hrest
  obtain ⟨htake, hdrop⟩ := Text.takeWhile_run hrun hstop
  rw [readAbsolute, htake, hdrop] at hu
  split at hu
  · exact absurd hu (by simp)
  · obtain ⟨text, hcheck, hu⟩ := exists_of_bind_eq_ok hu
    -- what is passed on as the authority is the authority
    have htext : text = authority := by
      rw [checkAuthority] at hcheck
      obtain ⟨a, -, ha⟩ := exists_of_bind_eq_ok hcheck
      split at ha
      · exact (Except.ok.inj ha).symm
      · exact absurd ha (by simp)
    split at hu
    · exact absurd hu (by simp)
    · obtain ⟨x, hx, rfl⟩ := exists_of_map_eq_ok hu
      rw [htext, readPathQuery_eq_ok hx]

/-- A text of at least two characters that does not start with a slash is read by its form. -/
theorem readForm_of_parse {s : String} {u : Uri} (hu : parse s = .ok u) {c d : Char}
    {rest : List Char} (hs : s.toList = c :: d :: rest) (hc : c ≠ '/') :
    readForm (c :: d :: rest) = .ok u := by
  rw [parse, hs] at hu
  split at hu
  · exact absurd hu (by simp)
  · split at hu
    · next heq => exact absurd heq (by simp)
    · next heq => exact absurd heq (by simp)
    · next heq => exact absurd (List.cons.inj heq).1 hc
    · next heq => exact absurd heq (by simp)
    · exact hu

section Text

variable {w : AbsoluteForm}

/-- Behind the path and query nothing follows but a hash and the fragment. -/
theorem exists_hash (w : AbsoluteForm) : ∃ hash : List Char,
    w.text.toList = w.scheme.toList ++ ':' :: '/' :: '/' ::
      (w.authority.toList ++ (w.pathQuery.toList ++ hash)) ∧
        (hash = [] ∨ ∃ fragment, hash = '#' :: fragment) := by
  refine ⟨((w.fragment?.map ("#" ++ ·)).getD "").toList, by simp [AbsoluteForm.text], ?_⟩
  cases w.fragment? with
  | none => exact .inl rfl
  | some fragment => exact .inr ⟨fragment.toList, by simp⟩

/-- An absolute URI is read by its form. -/
theorem readForm_text {u : Uri} (hu : parse w.text = .ok u) : readForm w.text.toList = .ok u := by
  obtain ⟨hash, htext, -⟩ := exists_hash w
  -- the first character is one of the scheme, or the colon
  cases hscheme : w.scheme.toList with
  | nil =>
      rw [hscheme] at htext
      rw [htext]
      exact readForm_of_parse hu htext (by decide)
  | cons c cs =>
      have hc : c ≠ '/' := by
        rintro rfl
        exact absurd (w.scheme_chars '/' (by simp [hscheme])) (by decide)
      rw [hscheme] at htext
      cases cs with
      | nil => rw [htext]; exact readForm_of_parse hu htext hc
      | cons d ds => rw [htext]; exact readForm_of_parse hu htext hc

variable {hash : List Char} (hhash : hash = [] ∨ ∃ fragment, hash = '#' :: fragment)

include hhash

/-- Whatever follows the authority ends it. -/
theorem endsAuthority_head : ∀ c ∈ (w.pathQuery.toList ++ hash).head?, endsAuthority c = true := by
  intro c hc
  cases hpath : w.pathQuery.toList with
  | nil =>
      rw [hpath] at hc
      rcases hhash with rfl | ⟨fragment, rfl⟩
      · exact absurd hc (by simp)
      · obtain rfl : '#' = c := by simpa using hc
        decide
  | cons d ds =>
      rw [hpath] at hc
      obtain rfl : d = c := by simpa using hc
      rcases w.pathQuery_start d (by simp [hpath]) with rfl | rfl <;> decide

theorem cut_pathQuery :
    (Text.cut '#' (w.pathQuery.toList ++ hash)).1 = w.pathQuery.toList := by
  rcases hhash with rfl | ⟨fragment, rfl⟩
  · rw [List.append_nil, Text.cut_of_not_mem w.hash_not_mem]
  · rw [Text.cut_append w.hash_not_mem]

end Text

/-- The text of an absolute URI is read **in its components**, and the fragment is gone. -/
theorem parse_text {w : AbsoluteForm} {u : Uri} (hu : parse w.text = .ok u) :
    u = .absolute w.scheme w.authority w.pathQuery := by
  obtain ⟨hash, htext, hhash⟩ := exists_hash w
  have hform := readForm_text hu
  rw [htext, readForm, splitScheme?_append w.scheme_chars] at hform
  have habsolute := readAbsolute_eq_ok w.authority_chars (endsAuthority_head hhash) hform
  rw [cut_pathQuery hhash] at habsolute
  simpa using habsolute

/-- What is matched is the path and query as it stands, or the root if there is nothing. -/
theorem target_of_parse_text {w : AbsoluteForm} {u : Uri} (hu : parse w.text = .ok u) :
    u.target = if Bare w.pathQuery then w.pathQuery else named w.pathQuery := by
  rw [parse_text hu, target]
  cases hpath : w.pathQuery.toList with
  | nil =>
      obtain hempty : w.pathQuery = "" := String.toList_eq_nil_iff.1 hpath
      rw [hempty]
      decide
  | cons c cs =>
      have hne : w.pathQuery ≠ "" := fun e => by simp [e] at hpath
      rw [if_neg hne]
      rcases w.pathQuery_start c (by simp [hpath]) with rfl | rfl
      · have hnamed : named w.pathQuery = w.pathQuery := if_pos (by simp [hpath])
        rw [hnamed, ite_self]
      · have hbare : Bare w.pathQuery := by simp [Bare, hpath]
        rw [if_pos hbare]

end Uri

/-! ## Inputs without a path -/

/-- Where there is nothing to take, **only globs fit**. -/
theorem Part.exists_fits_nothing_iff {ps : List Part} :
    (∃ es, Fits ps [] none es) ↔ ∀ p ∈ ps, p.isGlob = true := by
  induction ps with
  | nil => exact ⟨fun _ p hp => absurd hp List.not_mem_nil, fun _ => ⟨[], .nil⟩⟩
  | cons p ps ih =>
      rw [List.forall_mem_cons]
      constructor
      · rintro ⟨es, h⟩
        cases h with
        | glob name _ h => exact ⟨rfl, ih.1 ⟨_, h⟩⟩
      · rintro ⟨hp, hps⟩
        obtain ⟨es, h⟩ := ih.2 hps
        cases p with
        | glob name => exact ⟨_, h.glob name []⟩
        | _ => exact absurd hp (by simp)

namespace Template

/-- A part other than a glob, which takes something of the path. -/
def NeedsPath (t : Template) : Prop := ∃ p ∈ t.parts, p.isGlob = false

instance (t : Template) : Decidable t.NeedsPath :=
  inferInstanceAs (Decidable (∃ p ∈ t.parts, p.isGlob = false))

section Bare

variable {t : Template} (ht : t.Regular)

include ht

/-- A query alone, with a slash in front or without one, is matched by globs. -/
theorem Regular.accepts_query_iff (isRooted : Bool) (query : String) :
    t.accepts ((if isRooted then "/" else "") ++ ("?" ++ query)) = true ↔
      (isRooted = true ↔ t.rooted = true) ∧ ¬ t.NeedsPath := by
  have hpieces : ∀ piece ∈ ([] : List String), Input.Solid piece := by simp
  have hdotted : ∀ e ∈ (none : Option String), Token.Plain e := by simp
  have htext : (if isRooted then "/" else "") ++ ("?" ++ query) =
      Input.text isRooted [] none ++ ((some query).map ("?" ++ ·)).getD "" := by simp [Input.text]
  obtain ⟨hroot, hread, hp, he, -⟩ := Input.text_spec hpieces hdotted isRooted (some query) htext
  have hneeds : ¬ t.NeedsPath ↔ ∀ p ∈ t.parts, p.isGlob = true := by simp [NeedsPath]
  rw [ht.accepts_iff, hp, he, hroot, hneeds, ← Part.exists_fits_nothing_iff]
  exact and_congr_right fun _ => and_iff_right hread

/-- A query without a path is captured as it is at the root **exactly by the templates that match
neither of the two**, which are those that need a path. -/
theorem Regular.capture?_bare_iff {pathQuery : String} (hbare : Uri.Bare pathQuery) :
    t.capture? pathQuery = t.capture? (Uri.named pathQuery) ↔ t.NeedsPath := by
  obtain ⟨query, rfl⟩ : ∃ query, pathQuery = "?" ++ query := by
    obtain ⟨cs, hcs⟩ := List.head?_eq_some_iff.1 hbare
    refine ⟨String.ofList cs, String.toList_injective ?_⟩
    simpa using hcs
  have hnamed : Uri.named ("?" ++ query) = "/" ++ ("?" ++ query) := if_neg (by simp)
  have hopen := ht.accepts_query_iff false query
  have hrooted := ht.accepts_query_iff true query
  rw [if_neg Bool.false_ne_true, String.empty_append] at hopen
  rw [if_pos rfl] at hrooted
  rw [hnamed]
  unfold accepts at hopen hrooted
  constructor
  · intro h
    by_contra hneeds
    rw [h, hrooted] at hopen
    simp [hneeds] at hopen
  · intro hneeds
    have hnone : t.capture? ("?" ++ query) = none := by simpa [hneeds] using hopen
    have hnone' : t.capture? ("/" ++ ("?" ++ query)) = none := by simpa [hneeds] using hrooted
    rw [hnone, hnone']

end Bare

end Template

/-- A router finds the same for inputs that no template of it tells apart. -/
theorem Router.find?_congr {α : Type} {r : Router α} {s s' : String}
    (h : ∀ t ∈ r.templates, t.capture? s = t.capture? s') : r.find? s = r.find? s' := by
  obtain ⟨routes⟩ := r
  unfold find?
  induction routes with
  | nil => rfl
  | cons route routes ih =>
      have hroute := h route.1 List.mem_cons_self
      rw [List.findSome?_cons, List.findSome?_cons, hroute,
        ih fun t ht => h t (List.mem_cons_of_mem _ ht)]

/-- Locations of one template are the same if the captures are. -/
theorem Location.ofUri?_eq_iff {t : Template} {u : Uri} {s : String} :
    ofUri? t u = ofInput? t s ↔ t.captureUri? u = t.capture? s :=
  Option.map_inj_right fun _ _ h => (Location.mk.inj h).2

namespace Uri

/-! ## What an absolute URI names -/

/-- An absolute URI is matched as the path and query that it names, whatever its scheme, authority
and fragment are, **unless a query follows the authority at once**. That query is matched as it
stands, and the difference is seen by the templates that need no path. -/
theorem absolute_matches_named_iff (w : AbsoluteForm) {u : Uri} (hu : parse w.text = .ok u) :
    (∀ t : Template, t.Reachable →
      (t.captureUri? u = t.capture? (named w.pathQuery) ↔ (Bare w.pathQuery → t.NeedsPath)) ∧
      (Location.ofUri? t u = Location.ofInput? t (named w.pathQuery) ↔
        (Bare w.pathQuery → t.NeedsPath)) ∧
      (Bare w.pathQuery → t.captureUri? u = t.capture? w.pathQuery ∧
        Location.ofUri? t u = Location.ofInput? t w.pathQuery)) ∧
    ∀ (α : Type) (r : Router α), r.Reachable →
      ((Bare w.pathQuery → ∀ t ∈ r.templates, t.NeedsPath) →
        r.findUri? u = r.find? (named w.pathQuery)) ∧
      (Bare w.pathQuery → r.findUri? u = r.find? w.pathQuery) := by
  have htarget := target_of_parse_text hu
  by_cases hbare : Bare w.pathQuery
  · rw [if_pos hbare] at htarget
    constructor
    · intro t ht
      have hcapture : t.captureUri? u = t.capture? w.pathQuery := congrArg t.capture? htarget
      have hiff := (ht.regular.capture?_bare_iff hbare).trans (imp_iff_right hbare).symm
      rw [Location.ofUri?_eq_iff, Location.ofUri?_eq_iff, hcapture]
      exact ⟨hiff, hiff, fun _ => ⟨rfl, rfl⟩⟩
    · intro α r hr
      refine ⟨fun hneeds => ?_, fun _ => congrArg r.find? htarget⟩
      rw [Router.findUri?, htarget]
      exact Router.find?_congr fun t ht =>
        ((hr.reachable_of_mem t ht).regular.capture?_bare_iff hbare).2 (hneeds hbare t ht)
  · rw [if_neg hbare] at htarget
    constructor
    · intro t _
      have hcapture : t.captureUri? u = t.capture? (named w.pathQuery) := congrArg t.capture? htarget
      have hvacuous : Bare w.pathQuery → t.NeedsPath := fun h => absurd h hbare
      rw [Location.ofUri?_eq_iff]
      exact ⟨iff_of_true hcapture hvacuous, iff_of_true hcapture hvacuous, fun h => absurd h hbare⟩
    · intro α r _
      exact ⟨fun _ => congrArg r.find? htarget, fun h => absurd h hbare⟩

/-- With user, port and fragment, and with slashes to spare; and with a query alone, which a template
with a name in it does not match either way. -/
theorem absolute_matches_named_iff_files :
    ∃ (w b : AbsoluteForm) (u v : Uri) (t : Template) (r : Router Nat) (c : Captures),
      c = ⟨[(.name "path", .list ["a", "b"]), (.name "fmt", .single "gz"),
        (.query "v", .single "1")]⟩ ∧
      w.text = "https://me:pw@example.com:8080/files//a/b.gz?v=1#top" ∧ parse w.text = .ok u ∧
      b.text = "a+b://[::1]?v=1" ∧ parse b.text = .ok v ∧
      Template.ofPattern "/files/*path.fmt" = .ok t ∧ Router.empty.insertTemplate t 1 = .ok r ∧
      t.capture? "/files//a/b.gz?v=1" = some c ∧ t.captureUri? u = some c ∧
      Location.ofUri? t u = Location.ofInput? t "/files//a/b.gz?v=1" ∧
      r.findUri? u = some (1, c) ∧ t.capture? "/?v=1" = none ∧ t.captureUri? v = none ∧
      r.findUri? v = none := by
  let w : AbsoluteForm := ⟨"https", "me:pw@example.com:8080", "/files//a/b.gz?v=1", some "top",
    List.all_eq_true.1 rfl, forall_not_endsAuthority rfl,
    fun _ hc => .inl (Option.some.inj hc).symm, by decide⟩
  let b : AbsoluteForm := ⟨"a+b", "[::1]", "?v=1", none, List.all_eq_true.1 rfl,
    forall_not_endsAuthority rfl, fun _ hc => .inr (Option.some.inj hc).symm, by decide⟩
  let t : Template := ⟨true, [.literal "files", .glob "path", .format "fmt"]⟩
  let c : Captures := ⟨[(.name "path", .list ["a", "b"]), (.name "fmt", .single "gz"),
    (.query "v", .single "1")]⟩
  have ht : Template.ofPattern "/files/*path.fmt" = .ok t := rfl
  have hr : Router.empty.insertTemplate t 1 = .ok ⟨[(t, 1)]⟩ := rfl
  have hreach : (⟨[(t, 1)]⟩ : Router Nat).Reachable := .insertTemplate .empty (.ofPattern ht) hr
  have hu : parse w.text = .ok (.absolute w.scheme w.authority w.pathQuery) := by decide +kernel
  have hv : parse b.text = .ok (.absolute b.scheme b.authority b.pathQuery) := by decide +kernel
  obtain ⟨htemplates, hrouters⟩ := absolute_matches_named_iff w hu
  obtain ⟨htemplates', hrouters'⟩ := absolute_matches_named_iff b hv
  have hnamed : named w.pathQuery = "/files//a/b.gz?v=1" := by decide
  have hnamed' : named b.pathQuery = "/?v=1" := by decide
  have hpath : ¬ Bare w.pathQuery := by decide
  have hneeds : t.NeedsPath := by decide
  have hall : ∀ u ∈ (⟨[(t, 1)]⟩ : Router Nat).templates, u.NeedsPath := by decide
  rw [hnamed] at htemplates hrouters
  rw [hnamed'] at htemplates' hrouters'
  obtain ⟨hcapture, hlocation, -⟩ := htemplates t (.ofPattern ht)
  obtain ⟨hcapture', -, -⟩ := htemplates' t (.ofPattern ht)
  have hc : t.capture? "/files//a/b.gz?v=1" = some c := by decide +kernel
  have hnone : t.capture? "/?v=1" = none := by decide +kernel
  have hfound := (hrouters Nat _ hreach).1 fun h => absurd h hpath
  have hlost := (hrouters' Nat _ hreach).1 fun _ => hall
  exact ⟨w, b, _, _, t, _, c, rfl, by decide +kernel, hu, by decide +kernel, hv, ht, hr, hc,
    (hcapture.2 fun h => absurd h hpath).trans hc, hlocation.2 fun h => absurd h hpath,
    hfound.trans (by decide +kernel), hnone, (hcapture'.2 fun _ => hneeds).trans hnone,
    hlost.trans (by decide +kernel)⟩

/-- An absolute URI without a path names the root, but with a query **it is not matched at the root**,
neither by the template of the root nor in a router that has it. -/
theorem bare_query_not_matched_at_root :
    ∃ (w : AbsoluteForm) (u : Uri) (t : Template) (r : Router Nat),
      w.text = "http://example.com?x=1" ∧ parse w.text = .ok u ∧
      Template.ofPattern "/" = .ok t ∧ Router.empty.insertTemplate t 1 = .ok r ∧
      named w.pathQuery = "/?x=1" ∧
      t.capture? "/?x=1" = some ⟨[(.query "x", .single "1")]⟩ ∧ t.captureUri? u = none ∧
      r.find? "/?x=1" = some (1, ⟨[(.query "x", .single "1")]⟩) ∧ r.findUri? u = none := by
  let w : AbsoluteForm := ⟨"http", "example.com", "?x=1", none, List.all_eq_true.1 rfl,
    forall_not_endsAuthority rfl, fun _ hc => .inr (Option.some.inj hc).symm, by decide⟩
  let t : Template := ⟨true, []⟩
  exact ⟨w, .absolute "http" "example.com" "?x=1", t, ⟨[(t, 1)]⟩, by decide +kernel,
    by decide +kernel, rfl, rfl, by decide +kernel, by decide +kernel, by decide +kernel,
    by decide +kernel, by decide +kernel⟩

end Uri

end RoutePattern
