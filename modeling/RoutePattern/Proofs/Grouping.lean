/-
A query is read as its entries, grouped.

Reading pushes the decoded entries one by one. A key that is new comes to stand
last, and one that is there has its value changed where it stands, from a single
text to a list when the key comes a second time. What this amounts to is told
here without any change in place (`groups`): the keys in the order in which they
first appear, each with all of its texts in the order in which they appear.

The two are brought together from the left. What has been read of some entries
is their grouping, and one more entry pushed gives the grouping of the entries
with that one behind them (`push_groups`). Grouping is stable and loses nothing
(`withKey_grouped`, `grouped_perm`), and so a query that is written after it was
read holds all its entries again, key by key. To read that is to read the same,
as far as writing can be undone at all.
-/
import Mathlib.Data.List.Induction
import RoutePattern.Proofs.Recognized
import RoutePattern.Proofs.Union

set_option autoImplicit false

namespace RoutePattern

namespace Value

/-- What texts are captured as under one key. One text alone stands for itself. -/
def ofTexts : List String → Value
  | [text] => single text
  | texts => list texts

theorem texts_ofTexts (texts : List String) : (ofTexts texts).texts = texts := by
  match texts with
  | [] => rfl
  | [_] => rfl
  | _ :: _ :: _ => rfl

theorem ofTexts_concat {texts : List String} (h : texts ≠ []) (text : String) :
    ofTexts (texts ++ [text]) = (ofTexts texts).push text := by
  match texts, h with
  | [_], _ => rfl
  | _ :: _ :: _, _ => rfl

/-- One text is captured alone, and more are captured as a list. -/
theorem ofTexts_cases {texts : List String} (h : texts ≠ []) :
    (∃ text, texts = [text] ∧ ofTexts texts = single text) ∨
      2 ≤ texts.length ∧ ofTexts texts = list texts := by
  match texts, h with
  | [text], _ => exact .inl ⟨text, rfl, rfl⟩
  | _ :: _ :: _, _ => exact .inr ⟨by simp, rfl⟩

end Value

namespace Text

/-! ## Both sides of a cut -/

theorem fst_cut (d : Char) (s : List Char) : (cut d s).1 = s.takeWhile (· ≠ d) := by
  induction s with
  | nil => rfl
  | cons c cs ih =>
      by_cases hc : c = d
      · rw [hc, cut_cons_self, List.takeWhile_cons_of_neg (by simp)]
      · rw [cut_cons_of_ne hc, List.takeWhile_cons_of_pos (by simpa using hc), ih]

theorem snd_cut_getD (d : Char) (s : List Char) :
    (cut d s).2.getD [] = (s.dropWhile (· ≠ d)).tail := by
  induction s with
  | nil => rfl
  | cons c cs ih =>
      by_cases hc : c = d
      · rw [hc, cut_cons_self, List.dropWhile_cons_of_neg (by simp)]
        rfl
      · rw [cut_cons_of_ne hc, List.dropWhile_cons_of_pos (by simpa using hc), ih]

end Text

namespace Query

/-! ## Pairs by key -/

/-- The keys of pairs in the order in which they first appear. -/
def firstKeys (ps : List (String × String)) : List String := (ps.map Prod.fst).eraseDups

/-- The pairs with a key, in their order. -/
def withKey (key : String) (ps : List (String × String)) : List (String × String) :=
  ps.filter fun p => p.1 = key

/-- The texts under a key, in their order. -/
def textsUnder (key : String) (ps : List (String × String)) : List String :=
  (withKey key ps).map Prod.snd

/-- The pairs, key by key. -/
def grouped (ps : List (String × String)) : List (String × String) :=
  (firstKeys ps).flatMap fun key => withKey key ps

/-- The keys of pairs, each with all its texts. -/
def groups (ps : List (String × String)) : List Entry :=
  (firstKeys ps).map fun key => (.query key, .ofTexts (textsUnder key ps))

theorem mem_firstKeys {key : String} {ps : List (String × String)} :
    key ∈ firstKeys ps ↔ ∃ p ∈ ps, p.1 = key := by
  rw [firstKeys, List.mem_eraseDups, List.mem_map]

/-- A key that has appeared before does not appear for the first time. -/
theorem firstKeys_concat (ps : List (String × String)) (p : String × String) :
    firstKeys (ps ++ [p]) =
      if p.1 ∈ firstKeys ps then firstKeys ps else firstKeys ps ++ [p.1] := by
  have hmem : p.1 ∈ firstKeys ps ↔ p.1 ∈ ps.map Prod.fst := List.mem_eraseDups
  rw [firstKeys, List.map_append, List.eraseDups_append, ← firstKeys]
  by_cases h : p.1 ∈ firstKeys ps
  · have hnone : [p.1].removeAll (ps.map Prod.fst) = [] := by
      simpa [List.removeAll] using hmem.1 h
    rw [if_pos h, List.map_singleton, hnone]
    exact List.append_nil _
  · have hone : [p.1].removeAll (ps.map Prod.fst) = [p.1] := by
      simpa [List.removeAll] using mt hmem.2 h
    rw [if_neg h, List.map_singleton, hone]
    rfl

theorem nodup_firstKeys (ps : List (String × String)) : (firstKeys ps).Nodup := by
  induction ps using List.reverseRecOn with
  | nil => exact List.nodup_nil
  | append_singleton ps p ih =>
      rw [firstKeys_concat]
      split
      · exact ih
      · next h =>
        refine List.nodup_append.2 ⟨ih, List.pairwise_singleton _ _, fun a ha b hb e => h ?_⟩
        rwa [← List.mem_singleton.1 hb, ← e]

theorem textsUnder_concat (key : String) (ps : List (String × String)) (p : String × String) :
    textsUnder key (ps ++ [p]) = textsUnder key ps ++ if p.1 = key then [p.2] else [] := by
  by_cases h : p.1 = key <;> simp [textsUnder, withKey, List.filter_append, h]

/-- Where a key does not appear there is no text under it. -/
theorem textsUnder_eq_nil_iff {key : String} {ps : List (String × String)} :
    textsUnder key ps = [] ↔ key ∉ firstKeys ps := by
  rw [textsUnder, withKey, List.map_eq_nil_iff, List.filter_eq_nil_iff, mem_firstKeys]
  simp only [decide_eq_true_eq, not_exists, not_and]

/-! ## Reading is grouping -/

theorem keys_groups (ps : List (String × String)) :
    (⟨groups ps⟩ : Captures).keys = (firstKeys ps).map Key.query := by
  rw [Captures.keys, groups, List.map_map]
  rfl

theorem nodup_keys_groups (ps : List (String × String)) :
    (⟨groups ps⟩ : Captures).keys.Nodup := by
  rw [keys_groups]
  exact List.Pairwise.map Key.query (fun _ _ hne e => hne (Key.query.inj e)) (nodup_firstKeys ps)

theorem get?_groups_name (ps : List (String × String)) (name : String) :
    (⟨groups ps⟩ : Captures).get? (.name name) = none := by
  refine Captures.get?_eq_none fun h => ?_
  rw [keys_groups] at h
  simp at h

theorem get?_groups (ps : List (String × String)) (key : String) :
    (⟨groups ps⟩ : Captures).get? (.query key) =
      if key ∈ firstKeys ps then some (.ofTexts (textsUnder key ps)) else none := by
  split
  · next h =>
    refine (Captures.mem_entries_iff (nodup_keys_groups ps)).1 ?_
    exact List.mem_map.2 ⟨key, h, rfl⟩
  · next h =>
    refine Captures.get?_eq_none fun hm => h ?_
    rw [keys_groups] at hm
    obtain ⟨other, ho, heq⟩ := List.mem_map.1 hm
    exact Key.query.inj heq ▸ ho

/-- One more pair pushed gives **the grouping with that pair behind the others**. -/
theorem push_groups (ps : List (String × String)) (p : String × String) :
    (⟨groups ps⟩ : Captures).push (.query p.1) p.2 = ⟨groups (ps ++ [p])⟩ := by
  refine Captures.eq_of_get?_eq (Captures.nodup_push (nodup_keys_groups ps) _ _) ?_ ?_
  · have hmem : Key.query p.1 ∈ (firstKeys ps).map Key.query ↔ p.1 ∈ firstKeys ps := by simp
    rw [Captures.keys_push, keys_groups, keys_groups, firstKeys_concat]
    by_cases h : p.1 ∈ firstKeys ps
    · rw [if_pos h, if_pos (hmem.2 h)]
    · rw [if_neg h, if_neg (mt hmem.1 h), List.map_append]
      rfl
  · intro k
    rw [Captures.get?_push]
    cases k with
    | name name => rw [if_neg (by simp), get?_groups_name, get?_groups_name]
    | query key =>
        have hkeys : key ∈ firstKeys (ps ++ [p]) ↔ key ∈ firstKeys ps ∨ p.1 = key := by
          rw [mem_firstKeys, mem_firstKeys]
          simp [or_and_right, exists_or]
        rw [get?_groups, get?_groups, get?_groups, textsUnder_concat]
        by_cases hkey : p.1 = key
        · subst hkey
          rw [if_pos rfl, if_pos (hkeys.2 (.inr rfl)), if_pos rfl]
          by_cases h : p.1 ∈ firstKeys ps
          · rw [if_pos h, Value.ofTexts_concat (mt textsUnder_eq_nil_iff.1 (not_not_intro h))]
            rfl
          · rw [if_neg h, textsUnder_eq_nil_iff.2 h]
            rfl
        · have hne : ¬ Key.query key = Key.query p.1 := fun e => hkey (Key.query.inj e).symm
          rw [if_neg hne, if_neg hkey, List.append_nil]
          simp only [hkeys, hkey, or_false]

theorem foldl_push_eq_groups (ps : List (String × String)) :
    ps.foldl (fun c p => c.push (.query p.1) p.2) Captures.empty = ⟨groups ps⟩ := by
  induction ps using List.reverseRecOn with
  | nil => rfl
  | append_singleton ps p ih => rw [List.foldl_concat, ih, push_groups]

/-- A query is read as **the grouping of its entries**. -/
theorem read_eq_groups (s : String) : read s = ⟨groups (entries s)⟩ :=
  foldl_push_eq_groups (entries s)

/-! ## Grouping is stable -/

/-- Key by key, pairs come in another order and nothing else happens to them. -/
theorem flatMap_withKey_perm {keys : List String} (hnodup : keys.Nodup)
    {ps : List (String × String)} (hkeys : ∀ p ∈ ps, p.1 ∈ keys) :
    (keys.flatMap fun key => withKey key ps).Perm ps := by
  induction keys generalizing ps with
  | nil =>
      obtain rfl : ps = [] := List.eq_nil_iff_forall_not_mem.2 fun p hp =>
        absurd (hkeys p hp) List.not_mem_nil
      exact List.Perm.refl []
  | cons key keys ih =>
      obtain ⟨hkey, hrest⟩ := List.nodup_cons.1 hnodup
      -- the pairs with the first key are not looked at again
      have hothers : (keys.flatMap fun other => withKey other ps) =
          keys.flatMap fun other => withKey other (ps.filter fun p => !decide (p.1 = key)) := by
        refine List.flatMap_congr fun other ho => ?_
        have hne : other ≠ key := fun e => hkey (e ▸ ho)
        rw [withKey, withKey, List.filter_filter]
        refine List.filter_congr fun p _ => ?_
        by_cases hp : p.1 = other <;> simp [hp, hne]
      have hmem : ∀ p ∈ ps.filter (fun p => !decide (p.1 = key)), p.1 ∈ keys := by
        intro p hp
        obtain ⟨hin, hne⟩ := List.mem_filter.1 hp
        exact List.mem_of_ne_of_mem (by simpa using hne) (hkeys p hin)
      rw [List.flatMap_cons, hothers]
      exact ((ih hrest hmem).append_left _).trans (List.filter_append_perm _ ps)

/-- Grouping **loses nothing and doubles nothing**. -/
theorem grouped_perm (ps : List (String × String)) : (grouped ps).Perm ps :=
  flatMap_withKey_perm (nodup_firstKeys ps) fun p hp => mem_firstKeys.2 ⟨p, hp, rfl⟩

theorem withKey_withKey (key other : String) (ps : List (String × String)) :
    withKey key (withKey other ps) = if other = key then withKey key ps else [] := by
  rw [withKey, withKey, List.filter_filter]
  split
  · next h =>
    subst h
    simp [withKey]
  · next h =>
    refine List.filter_eq_nil_iff.2 fun p _ => ?_
    simp only [Bool.and_eq_true, decide_eq_true_eq, not_and]
    rintro rfl e
    exact h e.symm

/-- The pairs with one key **stay in their order**. -/
theorem withKey_grouped (key : String) (ps : List (String × String)) :
    withKey key (grouped ps) = withKey key ps := by
  have hpick : ∀ {keys : List String}, keys.Nodup →
      withKey key (keys.flatMap fun other => withKey other ps) =
        if key ∈ keys then withKey key ps else [] := by
    intro keys hnodup
    induction keys with
    | nil => rfl
    | cons other keys ih =>
        obtain ⟨hother, hrest⟩ := List.nodup_cons.1 hnodup
        specialize ih hrest
        rw [withKey] at ih ⊢
        rw [List.flatMap_cons, List.filter_append, ih, ← withKey, withKey_withKey]
        by_cases h : other = key
        · subst h
          simp [hother]
        · have h' : key ≠ other := fun e => h e.symm
          simp [h, h']
  rw [grouped, hpick (nodup_firstKeys ps)]
  split
  · rfl
  · next h =>
    have hnil := textsUnder_eq_nil_iff.2 h
    exact (List.map_eq_nil_iff.1 hnil).symm

/-! ## Written after it was read -/

/-- The groups hold the pairs, key by key. -/
theorem flatMap_pairs_groups (ps : List (String × String)) :
    (groups ps).flatMap pairs = grouped ps := by
  rw [groups, List.flatMap_map, grouped]
  refine List.flatMap_congr fun key _ => ?_
  change (Value.ofTexts (textsUnder key ps)).texts.map (fun text => (key, text)) = _
  rw [Value.texts_ofTexts, textsUnder, List.map_map]
  have hself : ∀ p ∈ withKey key ps, (key, p.2) = p := by
    rintro p hp
    obtain rfl : p.1 = key := by simpa using (List.mem_filter.1 hp).2
    rfl
  exact (List.map_congr_left hself).trans (List.map_id _)

theorem write_read (s : String) : write (read s) =
    "&".intercalate ((grouped (entries s)).map fun p => p.1 ++ "=" ++ p.2) := by
  rw [read_eq_groups, write, ← flatMap_pairs_groups, List.map_flatMap, funext writeEntry_eq]

/-- What was read can be written, if its keys and texts can. -/
theorem writable_of_mem_read {s : String}
    (h : ∀ p ∈ entries s, Verbatim p.1 ∧ '=' ∉ p.1.toList ∧ Verbatim p.2) :
    ∀ e ∈ (read s).entries, Writable e := by
  rw [read_eq_groups]
  intro e he
  obtain ⟨key, hkey, rfl⟩ := List.mem_map.1 he
  obtain ⟨p, hp, rfl⟩ := mem_firstKeys.1 hkey
  refine ⟨(h p hp).1, (h p hp).2.1, fun text ht => ?_⟩
  have htext : text ∈ textsUnder p.1 (entries s) := by
    rwa [← Value.texts_ofTexts (textsUnder p.1 (entries s))]
  obtain ⟨q, hq, rfl⟩ := List.mem_map.1 htext
  exact (h q (List.mem_filter.1 hq).1).2.2

/-- What was read comes back **as it is**, key by key in its order, if it can be written. -/
theorem read_write_read {s : String} (h : ∀ e ∈ (read s).entries, Writable e) :
    read (write (read s)) = read s := by
  -- for a template without parts all entries belong to the query
  let l : Location := ⟨{}, read s⟩
  have hpush : l.readBackEntry = pushTexts := by
    funext c e
    refine l.readBackEntry_of_not_declares ?_ c
    rw [Location.declares_eq]
    exact Bool.false_ne_true
  have hsettled : ∀ e ∈ (read s).entries, l.template.Settled e := fun e he =>
    .inr ⟨keys_read (List.mem_map_of_mem he), collected_of_mem_read he⟩
  have hback : l.readBack = read s := Location.readBack_of_settled (nodup_keys_read s) hsettled
  rw [Location.readBack, hpush] at hback
  rw [read_write h]
  exact hback

/-! ## Entries of a text -/

/-- An entry is cut at its first `=`, and without one its value is empty. -/
theorem entry_eq (piece : List Char) : entry piece =
    (decode (String.ofList (piece.takeWhile (· ≠ '='))),
      decode (String.ofList (piece.dropWhile (· ≠ '=')).tail)) := by
  rw [entry, Text.fst_cut, Text.snd_cut_getD]

/-- Behind an `&` other entries start. -/
theorem entries_append (a b : String) : entries (a ++ "&" ++ b) = entries a ++ entries b := by
  have hlist : (a ++ "&" ++ b).toList = a.toList ++ '&' :: b.toList := by simp
  rw [entries, hlist, List.splitOn_append_cons_self, List.filter_append, List.map_append]
  rfl

/-- A query is read as the **stable grouping of its decoded entries**: its keys are those of the
entries, each where it first appears, and under a key there is the text of its one entry, or the
list of the texts of all its entries in their order. So all entries are written again, key by key,
and none is lost or written twice. Queries joined by an `&` are read as the grouping of the entries
of both. And what is written is read the same again, in the same order, if no text holds what
writing cannot keep. -/
theorem read_groups_entries (s : String) :
    entries s = ((s.toList.splitOn '&').filter (· ≠ [])).map (fun piece =>
      (decode (String.ofList (piece.takeWhile (· ≠ '='))),
        decode (String.ofList (piece.dropWhile (· ≠ '=')).tail))) ∧
    (read s).entries = groups (entries s) ∧
    (read s).keys = (firstKeys (entries s)).map Key.query ∧
    (∀ key ∈ firstKeys (entries s),
      (∃ text, textsUnder key (entries s) = [text] ∧
        (read s).get? (.query key) = some (.single text)) ∨
      2 ≤ (textsUnder key (entries s)).length ∧
        (read s).get? (.query key) = some (.list (textsUnder key (entries s)))) ∧
    write (read s) = "&".intercalate ((grouped (entries s)).map fun p => p.1 ++ "=" ++ p.2) ∧
    (grouped (entries s)).Perm (entries s) ∧
    (∀ key, withKey key (grouped (entries s)) = withKey key (entries s)) ∧
    (∀ b, (read (s ++ "&" ++ b)).entries = groups (entries s ++ entries b)) ∧
    ((∀ p ∈ entries s, Verbatim p.1 ∧ '=' ∉ p.1.toList ∧ Verbatim p.2) →
      read (write (read s)) = read s) := by
  refine ⟨by rw [entries, funext entry_eq], congrArg Captures.entries (read_eq_groups s), ?_, ?_,
    write_read s, grouped_perm _, fun key => withKey_grouped key _, ?_,
    fun h => read_write_read (writable_of_mem_read h)⟩
  · rw [read_eq_groups, keys_groups]
  · intro key hkey
    have hget := get?_groups (entries s) key
    rw [if_pos hkey, ← read_eq_groups] at hget
    have hne := mt textsUnder_eq_nil_iff.1 (not_not_intro hkey)
    rcases Value.ofTexts_cases hne with ⟨text, htexts, hvalue⟩ | ⟨hlen, hvalue⟩
    · exact .inl ⟨text, htexts, hvalue ▸ hget⟩
    · exact .inr ⟨hlen, hvalue ▸ hget⟩
  · intro b
    rw [read_eq_groups, entries_append]

/-- Two keys are the same after decoding only, entries and a key are empty, and a value has an `=`.
A key with an `=` would not be read back. -/
theorem read_groups_entries_flags :
    entries "k=1&&%6B=&=&a=b=c&k=+" = [("k", "1"), ("k", ""), ("", ""), ("a", "b=c"), ("k", " ")] ∧
    (read "k=1&&%6B=&=&a=b=c&k=+").keys = [.query "k", .query "", .query "a"] ∧
    write (read "k=1&&%6B=&=&a=b=c&k=+") = "k=1&k=&k= &=&a=b=c" ∧
    read (write (read "k=1&&%6B=&=&a=b=c&k=+")) = read "k=1&&%6B=&=&a=b=c&k=+" ∧
    (read ("k=1&&%6B=&=&a=b=c&k=+" ++ "&" ++ "a=2")).entries =
      [(.query "k", .list ["1", "", " "]), (.query "", .single ""),
        (.query "a", .list ["b=c", "2"])] ∧
    read (write (read "%3D=1")) ≠ read "%3D=1" := by
  have hentries : entries "k=1&&%6B=&=&a=b=c&k=+" =
      [("k", "1"), ("k", ""), ("", ""), ("a", "b=c"), ("k", " ")] := by decide +kernel
  obtain ⟨-, -, hkeys, -, hwrite, -, -, hjoined, hback⟩ :=
    read_groups_entries "k=1&&%6B=&=&a=b=c&k=+"
  rw [hentries] at hkeys hwrite hjoined hback
  have hother : entries "a=2" = [("a", "2")] := by decide +kernel
  exact ⟨hentries, hkeys.trans (by decide +kernel), hwrite.trans (by decide +kernel),
    hback (by decide), (hjoined "a=2").trans (by rw [hother]; decide +kernel), by decide +kernel⟩

end Query

end RoutePattern
