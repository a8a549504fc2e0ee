import Mathlib.Data.List.Forall2

/-!
# Results that may be errors

What it means that a sequence of results, or a list of them one after another, is without errors.
-/

set_option autoImplicit false
set_option relaxedAutoImplicit false

namespace Playground.Library.Except

variable {ε α β : Type}

/-- A sequence has a value if both of its parts have one. -/
theorem bind_eq_ok {first : Except ε α} {next : α → Except ε β} {result : β} :
    first >>= next = .ok result ↔ ∃ value, first = .ok value ∧ next value = .ok result := by
  cases first with
  | error error => exact ⟨nofun, fun ⟨_, hvalue, _⟩ ↦ nomatch hvalue⟩
  | ok value =>
    refine ⟨fun hnext ↦ ⟨value, rfl, hnext⟩, fun ⟨other, hother, hnext⟩ ↦ ?_⟩
    obtain rfl := Except.ok.inj hother
    exact hnext

/-- A list of results has values if each of them has the one in its place. -/
theorem mapM_eq_ok {body : α → Except ε β} {entries : List α} {values : List β} :
    entries.mapM body = .ok values ↔
      List.Forall₂ (fun entry value ↦ body entry = .ok value) entries values := by
  induction entries generalizing values with
  | nil =>
    rw [List.mapM_nil, List.forall₂_nil_left_iff]
    exact ⟨fun hvalues ↦ (Except.ok.inj hvalues).symm, fun hvalues ↦ hvalues ▸ rfl⟩
  | cons entry rest ih =>
    rw [List.mapM_cons, bind_eq_ok, List.forall₂_cons_left_iff]
    constructor
    · rintro ⟨value, hvalue, hrest⟩
      obtain ⟨others, hothers, hvalues⟩ := bind_eq_ok.mp hrest
      exact ⟨value, others, hvalue, ih.mp hothers, (Except.ok.inj hvalues).symm⟩
    · rintro ⟨value, others, hvalue, hothers, rfl⟩
      exact ⟨value, hvalue, bind_eq_ok.mpr ⟨others, ih.mpr hothers, rfl⟩⟩

/-- Each of the values is that of an entry. -/
theorem exists_of_mem_mapM {body : α → Except ε β} {entries : List α} {values : List β}
    (hmap : entries.mapM body = .ok values) {value : β} (hmem : value ∈ values) :
    ∃ entry ∈ entries, body entry = .ok value := by
  obtain ⟨hlength, hget⟩ := List.forall₂_iff_get.mp (mapM_eq_ok.mp hmap)
  obtain ⟨index, hindex, rfl⟩ := List.getElem_of_mem hmem
  have hentry := hlength ▸ hindex
  exact ⟨entries.get ⟨index, hentry⟩, List.get_mem _ _, hget index hentry hindex⟩

/-- Loops whose rounds have the same results have the same result. -/
theorem mapM_congr {body other : α → Except ε β} {entries : List α}
    (hbody : ∀ entry ∈ entries, body entry = other entry) : entries.mapM body = entries.mapM other := by
  induction entries with
  | nil => rfl
  | cons entry rest ih =>
    rw [List.forall_mem_cons] at hbody
    rw [List.mapM_cons, List.mapM_cons, hbody.1, ih hbody.2]

/-- A list of actions has values if each of them has one. -/
theorem exists_mapM_eq_ok {body : α → Except ε β} {entries : List α}
    (hbody : ∀ entry ∈ entries, ∃ value, body entry = .ok value) :
    ∃ values, entries.mapM body = .ok values := by
  induction entries with
  | nil => exact ⟨[], rfl⟩
  | cons entry rest ih =>
    rw [List.forall_mem_cons] at hbody
    obtain ⟨⟨value, hvalue⟩, hrest⟩ := hbody
    obtain ⟨values, hvalues⟩ := ih hrest
    exact ⟨value :: values, by rw [List.mapM_cons, hvalue, hvalues]; rfl⟩

/-- The values of a list of actions before, at and after one of its entries. -/
theorem mapM_append_cons {body : α → Except ε β} {before after : List α} {entry : α} {values : List β}
    (hvalues : (before ++ entry :: after).mapM body = .ok values) : ∃ first value last,
      before.mapM body = .ok first ∧ body entry = .ok value ∧ after.mapM body = .ok last ∧
        values = first ++ value :: last := by
  rw [List.mapM_append, List.mapM_cons] at hvalues
  obtain ⟨first, hfirst, hvalues⟩ := bind_eq_ok.mp hvalues
  obtain ⟨middle, hmiddle, hvalues⟩ := bind_eq_ok.mp hvalues
  obtain ⟨value, hvalue, hmiddle⟩ := bind_eq_ok.mp hmiddle
  obtain ⟨last, hlast, hmiddle⟩ := bind_eq_ok.mp hmiddle
  obtain rfl := Except.ok.inj hmiddle
  exact ⟨first, value, last, hfirst, hvalue, hlast, (Except.ok.inj hvalues).symm⟩

/-- Every entry of a list of actions that has values has one. -/
theorem exists_of_mapM {body : α → Except ε β} {entries : List α} {values : List β}
    (hvalues : entries.mapM body = .ok values) {entry : α} (hentry : entry ∈ entries) :
    ∃ value ∈ values, body entry = .ok value := by
  obtain ⟨before, after, rfl⟩ := List.append_of_mem hentry
  obtain ⟨first, value, last, -, hvalue, -, rfl⟩ := mapM_append_cons hvalues
  exact ⟨value, List.mem_append_right _ List.mem_cons_self, hvalue⟩

/-- The values of a list of actions are empty one after another if each of them is empty. -/
theorem flatten_mapM_eq_nil {body : α → Except ε (List β)} {entries : List α} :
    (entries.mapM body >>= fun values ↦ pure values.flatten) = .ok [] ↔
      ∀ entry ∈ entries, body entry = .ok [] := by
  constructor
  · intro hflatten entry hentry
    obtain ⟨values, hvalues, hempty⟩ := bind_eq_ok.mp hflatten
    obtain ⟨before, after, rfl⟩ := List.append_of_mem hentry
    obtain ⟨first, value, last, -, hvalue, -, rfl⟩ := mapM_append_cons hvalues
    have hnil := List.flatten_eq_nil_iff.mp (Except.ok.inj hempty)
    rw [hvalue, hnil value (List.mem_append_right _ List.mem_cons_self)]
  · intro hbody
    obtain ⟨values, hvalues⟩ := exists_mapM_eq_ok fun entry hentry ↦ ⟨[], hbody entry hentry⟩
    refine bind_eq_ok.mpr ⟨values, hvalues, congrArg Except.ok ?_⟩
    refine List.flatten_eq_nil_iff.mpr fun value hvalue ↦ ?_
    obtain ⟨entry, hentry, hbodyEntry⟩ := exists_of_mem_mapM hvalues hvalue
    exact Except.ok.inj (hbodyEntry.symm.trans (hbody entry hentry))

/-- If two lists of actions agree but for one entry, and have the same values one after another, then they
agree on this entry too. -/
theorem eq_of_flatten_mapM {body other : α → Except ε (List β)} {entries before after : List α}
    {entry : α} (hsplit : entries = before ++ entry :: after)
    (hbefore : ∀ entry ∈ before, body entry = other entry)
    (hafter : ∀ entry ∈ after, body entry = other entry) {values others : List (List β)}
    (hvalues : entries.mapM body = .ok values)
    (hothers : entries.mapM other = .ok others)
    (hflatten : values.flatten = others.flatten) : body entry = other entry := by
  subst hsplit
  obtain ⟨first, value, last, hfirst, hvalue, hlast, rfl⟩ := mapM_append_cons hvalues
  obtain ⟨otherFirst, otherValue, otherLast, hotherFirst, hotherValue, hotherLast, rfl⟩ :=
    mapM_append_cons hothers
  have hfirsts : first = otherFirst := by
    rw [← mapM_congr hbefore, hfirst] at hotherFirst
    exact Except.ok.inj hotherFirst
  have hlasts : last = otherLast := by
    rw [← mapM_congr hafter, hlast] at hotherLast
    exact Except.ok.inj hotherLast
  subst hfirsts hlasts
  rw [List.flatten_append, List.flatten_append, List.append_cancel_left_eq, List.flatten_cons,
    List.flatten_cons, List.append_cancel_right_eq] at hflatten
  rw [hvalue, hotherValue, hflatten]

end Playground.Library.Except
