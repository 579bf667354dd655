import Constituency.Proofs.Bracket.Division

/-!
# The items of a stream and its parts

A stream is divided into parts in one way (`exists_division`, `Divided.unique`). The trees that are
read are those of the parts and the errors are those of the parts, each in the order of the text.
Trees and errors need not be in order among each other: the error of a line is given before the
trees that end on it, although it always stands behind them (`Divided.items_eq_iff`).
-/

namespace Constituency.Bracket

/-! ## What a part amounts to -/

namespace Part

variable {p : Part} {m : Nat}

theorem Fits.filter_isOk_items {rest : List Symbol} (h : p.Fits rest) :
    p.items.filter Except.isOk = p.tree?.toList := by
  have hnone : ∀ es : List ParseError,
      (es.map (Except.error : ParseError → Item)).filter Except.isOk = [] := fun es =>
    List.filter_eq_nil_iff.mpr fun _ hi => by
      obtain ⟨e, -, rfl⟩ := List.mem_map.mp hi
      exact Bool.false_ne_true
  rw [items, List.filter_append, hnone, List.nil_append]
  cases h with
  | between | stray | unclosed => rfl
  | tree htree =>
    obtain ⟨t, ht⟩ := parseTree_group htree.group
    rw [tree?, ht]
    rfl

theorem Fits.filterMap_error_items {rest : List Symbol} (h : p.Fits rest) :
    p.items.filterMap error? = p.errors := by
  have hall : ∀ es : List ParseError,
      (es.map (Except.error : ParseError → Item)).filterMap error? = es := fun es => by
    rw [List.filterMap_map]
    exact List.filterMap_some
  have hnone : p.tree?.toList.filterMap error? = [] := by
    cases h with
    | between | stray | unclosed => rfl
    | tree htree =>
      obtain ⟨t, ht⟩ := parseTree_group htree.group
      rw [tree?, ht]
      rfl
  rw [items, List.filterMap_append, hall, hnone, List.append_nil]

/-- What is found in a part of the kinds that have a line of their own. -/
theorem ok_mem_found {t : Tree} : .ok (m, t) ∈ p.found ↔
    ∃ piece, p = .tree piece ∧ m = finalLine piece ∧
      parseTree (String.ofList (textOf piece)) = .ok t := by
  have herrors : ∀ es : List ParseError, (.ok (m, t) : Found) ∉ es.map Except.error := by
    intro es hmem
    obtain ⟨e, -, heq⟩ := List.mem_map.mp hmem
    cases heq
  cases p with
  | between | stray | unclosed =>
    refine iff_of_false (herrors _) ?_
    rintro ⟨piece, hp, -⟩
    cases hp
  | tree piece =>
    rw [found, List.mem_append, or_iff_right (herrors _), List.mem_singleton]
    cases hread : parseTree (String.ofList (textOf piece)) with
    | error e =>
      refine iff_of_false (fun h => by cases h) ?_
      rintro ⟨_, hp, -, ht⟩
      rw [← Part.tree.inj hp, hread] at ht
      cases ht
    | ok t' =>
      constructor
      · intro h
        obtain ⟨hm, ht⟩ := Prod.mk.inj (Except.ok.inj h)
        exact ⟨piece, rfl, hm, by rw [hread, ht]⟩
      · rintro ⟨_, hp, hm, ht⟩
        rw [← Part.tree.inj hp] at hm ht
        rw [hm, ← hread, ht]
        rfl

theorem Fits.stray_mem_found {rest : List Symbol} (h : p.Fits rest) {c : Char} :
    .error ⟨m, .stray c⟩ ∈ p.found ↔ ∃ tail, p = .stray m c tail := by
  have hundecoded : ∀ piece, (.error ⟨m, .stray c⟩ : Found) ∉ (undecoded piece).map Except.error :=
    fun piece hmem => by
      obtain ⟨e, he, heq⟩ := List.mem_map.mp hmem
      obtain ⟨s, -, -, rfl⟩ := mem_undecoded.mp he
      cases heq
  cases h with
  | between =>
    refine iff_of_false (hundecoded _) ?_
    rintro ⟨_, hp⟩
    cases hp
  | @tree piece _ htree =>
    obtain ⟨t, ht⟩ := parseTree_group htree.group
    refine iff_of_false (fun hmem => ?_) ?_
    · rw [found, ht, List.mem_append, or_iff_right (hundecoded _)] at hmem
      cases List.mem_singleton.mp hmem
    · rintro ⟨_, hp⟩
      cases hp
  | @stray line x tail =>
    change _ ∈ [(.error ⟨line, .stray x⟩ : Found)] ↔ _
    rw [List.mem_singleton]
    constructor
    · intro heq
      obtain ⟨rfl, hcause⟩ := ParseError.mk.inj (Except.error.inj heq)
      obtain rfl := ParseError.Cause.stray.inj hcause
      exact ⟨tail, rfl⟩
    · rintro ⟨_, hp⟩
      obtain ⟨rfl, rfl, -⟩ := Part.stray.inj hp
      rfl
  | @unclosed piece =>
    refine iff_of_false (fun hmem => ?_) ?_
    · rw [found_unclosed, List.mem_append, or_iff_right (hundecoded _)] at hmem
      cases List.mem_singleton.mp hmem
    · rintro ⟨_, hp⟩
      cases hp

end Part

/-! ## What a stream amounts to -/

theorem Divided.fits {ss : List Symbol} {ps : List Part} (h : Divided ss ps) :
    ∀ p ∈ ps, ∃ rest, p.Fits rest := by
  induction h with
  | nil => exact fun _ hp => absurd hp List.not_mem_nil
  | cons hfits _ ih => exact List.forall_mem_cons.mpr ⟨⟨_, hfits⟩, ih⟩

theorem Divided.isTree {ss : List Symbol} {ps : List Part} (h : Divided ss ps)
    {piece : List Symbol} (hp : .tree piece ∈ ps) : IsTree piece := by
  obtain ⟨rest, hfits⟩ := h.fits _ hp
  cases hfits with
  | tree htree => exact htree

/-- **Every stream is divided into parts.** -/
theorem exists_division (ls : List Line) : ∃ ps, Divided (symbolsFrom 1 ls) ps :=
  (Divided.exists_found ls 1 tracks_start).imp fun _ h => h.1

namespace Divided

variable {ls : List Line} {ps : List Part}

/-- A stream has no other division. -/
theorem iff_eq (h : Divided (symbolsFrom 1 ls) ps) (qs : List Part) :
    Divided (symbolsFrom 1 ls) qs ↔ qs = ps :=
  ⟨fun hqs => hqs.unique h, fun heq => heq ▸ h⟩

theorem flatMap_found (h : Divided (symbolsFrom 1 ls) ps) :
    ps.flatMap Part.found = foundFrom 1 {} ls := by
  obtain ⟨qs, hqs, hfound⟩ := Divided.exists_found ls 1 tracks_start
  rw [h.unique hqs]
  exact hfound

/-- What is found in a stream is what its parts amount to. -/
theorem flatMap_items (h : Divided (symbolsFrom 1 ls) ps) :
    (foundFrom 1 {} ls).map itemOf = ps.flatMap Part.items := by
  rw [← h.flatMap_found, List.map_flatMap]
  exact List.flatMap_congr fun p _ => p.map_itemOf_found

/-- **The trees that are read are those of the parts**, in order. -/
theorem filter_isOk (h : Divided (symbolsFrom 1 ls) ps) :
    (items ls).filter Except.isOk = ps.filterMap Part.tree? := by
  rw [items, Tracks.filter_isOk tracks_start, h.flatMap_items, List.filter_flatMap,
    List.filterMap_eq_flatMap_toList]
  exact List.flatMap_congr fun p hp => (h.fits p hp).choose_spec.filter_isOk_items

/-- **The errors that are reported are those of the parts**, in order. -/
theorem filterMap_error (h : Divided (symbolsFrom 1 ls) ps) :
    (items ls).filterMap error? = ps.flatMap Part.errors := by
  rw [items, Tracks.filterMap_error tracks_start, h.flatMap_items, List.filterMap_flatMap]
  exact List.flatMap_congr fun p hp => (h.fits p hp).choose_spec.filterMap_error_items

theorem error_mem_items (h : Divided (symbolsFrom 1 ls) ps) {e : ParseError} :
    .error e ∈ items ls ↔ ∃ p ∈ ps, e ∈ p.errors := by
  rw [← List.mem_flatMap, ← h.filterMap_error, List.mem_filterMap]
  constructor
  · exact fun hmem => ⟨_, hmem, rfl⟩
  · rintro ⟨i, hmem, hi⟩
    cases i with
    | ok t => cases hi
    | error e' => rwa [← Option.some.inj hi]

/-- **The items are in the order of the text exactly if no tree ends on a line of stray text.** -/
theorem items_eq_iff (h : Divided (symbolsFrom 1 ls) ps) :
    items ls = ps.flatMap Part.items ↔ ∀ piece line c rest, .tree piece ∈ ps →
      .stray line c rest ∈ ps → finalLine piece ≠ line := by
  have hclash : Clash (foundFrom 1 {} ls) ↔ ∃ piece line c rest, .tree piece ∈ ps ∧
      .stray line c rest ∈ ps ∧ finalLine piece = line := by
    rw [← h.flatMap_found]
    constructor
    · rintro ⟨m, t, c, htree, hstray⟩
      obtain ⟨p, hp, htree⟩ := List.mem_flatMap.mp htree
      obtain ⟨q, hq, hstray⟩ := List.mem_flatMap.mp hstray
      obtain ⟨piece, rfl, hm, -⟩ := Part.ok_mem_found.mp htree
      obtain ⟨rest, rfl⟩ := (h.fits q hq).choose_spec.stray_mem_found.mp hstray
      exact ⟨piece, m, c, rest, hp, hq, hm.symm⟩
    · rintro ⟨piece, m, c, rest, hp, hq, hm⟩
      obtain ⟨t, ht⟩ := parseTree_group (h.isTree hp).group
      exact ⟨m, t, c, List.mem_flatMap.mpr ⟨_, hp, Part.ok_mem_found.mpr ⟨piece, rfl, hm.symm, ht⟩⟩,
        List.mem_flatMap.mpr ⟨_, hq, List.mem_singleton.mpr rfl⟩⟩
  rw [items, ← h.flatMap_items, Tracks.itemsFrom_eq_iff tracks_start, hclash]
  push Not
  rfl

end Divided

/-- **Items and the order of the text.** A stream falls into parts in exactly one way. The reader
gives the trees of the parts in their order and the errors in theirs. All its items are in the order
of the text exactly if no tree ends on a line with stray text behind it. -/
theorem items_in_text_order_iff (ls : List Line) : ∃ ps : List Part,
    (∀ qs, Divided (symbolsFrom 1 ls) qs ↔ qs = ps) ∧
      (items ls).filter Except.isOk = ps.filterMap Part.tree? ∧
      (items ls).filterMap error? = ps.flatMap Part.errors ∧
      (items ls = ps.flatMap Part.items ↔ ∀ piece line c rest, .tree piece ∈ ps →
        .stray line c rest ∈ ps → finalLine piece ≠ line) := by
  obtain ⟨ps, hps⟩ := exists_division ls
  exact ⟨ps, hps.iff_eq, hps.filter_isOk, hps.filterMap_error, hps.items_eq_iff⟩

/-- Stray text behind a tree on the same line is reported before the tree. -/
theorem stray_text_overtakes_tree : ∃ (ps : List Part) (t : Tree),
    Divided (symbolsFrom 1 [some "(A a) junk".toList]) ps ∧
      ps.flatMap Part.items = [.ok t, .error ⟨1, .stray 'j'⟩] ∧
      itemsOfText "(A a) junk" = [.error ⟨1, .stray 'j'⟩, .ok t] ∧
      itemsOfText "(A a) junk" ≠ ps.flatMap Part.items := by
  obtain ⟨ps, hps⟩ := exists_division [some "(A a) junk".toList]
  have hparts : ps.flatMap Part.items =
      [.ok (.ofConstituent (some (.node "A" [.node "a" []]))), .error ⟨1, .stray 'j'⟩] :=
    hps.flatMap_items.symm
  have hitems : itemsOfText "(A a) junk" =
      [.error ⟨1, .stray 'j'⟩, .ok (.ofConstituent (some (.node "A" [.node "a" []])))] := rfl
  refine ⟨ps, _, hps, hparts, hitems, fun heq => ?_⟩
  rw [hparts, hitems] at heq
  cases List.head_eq_of_cons_eq heq

end Constituency.Bracket
