import Playground.Library.RecentList
import Playground.Terminal.LineEditing

/-!
# The shell history

`PgShellHistory` (`client/src/utils/pg/terminal/shell-history.ts`) against what it is for: after every
sequence of commands the entries are the last ones of the distinct commands, in the order of their last
use, and the arrow keys go back and forth in them as a `Navigator` does (`history_pushAll_navigate`).
-/

set_option autoImplicit false
set_option relaxedAutoImplicit false

namespace Playground.Terminal

open Library

/-! ### Commands -/

/-- A command that is kept: neither the empty one nor the one that repeats the last command. -/
def isKept (entry : Units) : Bool :=
  entry ≠ [] ∧ entry ≠ units "!!"

/-- One command after the other is pushed. -/
def History.pushAll (history : History) (commands : List Units) : History :=
  commands.foldl History.push history

/-- The cursor is past the last entry, and the entries are the commands that have been used last. -/
structure History.Holds (history : History) (size : ℕ) (commands : List Units) : Prop where
  size_eq : history.size = size
  entries_eq : history.entries = recent size (commands.filter isKept)
  cursor_eq : history.cursor = history.entries.length

/-- Taking out a duplicate and putting the command at the end, unless it is there already, is moving it
to the end. -/
theorem withLast_withoutDuplicate {entries : List Units} (hnodup : entries.Nodup) (entry : Units) :
    withLast (withoutDuplicate entries entry) entry =
      (entries.filter fun other ↦ other ≠ entry) ++ [entry] := by
  have hothers : ∀ items : List Units, entry ∉ items →
      (items.filter fun other ↦ other ≠ entry) = items := fun items hitems ↦
    List.filter_eq_self.mpr fun other hother ↦
      decide_eq_true fun heq ↦ hitems (heq ▸ hother)
  by_cases hentry : entry ∈ entries
  · obtain ⟨before, after, rfl, hbefore⟩ := List.eq_append_cons_of_mem hentry
    have hindex : (before ++ entry :: after).idxOf entry = before.length := by
      rw [List.idxOf_append_of_notMem hbefore, List.idxOf_cons_self, Nat.add_zero]
    have hafter : entry ∉ after := by
      have htail := (List.nodup_append.mp hnodup).2.1
      exact (List.nodup_cons.mp htail).1
    have hfilter : ((before ++ entry :: after).filter fun other ↦ other ≠ entry) =
        before ++ after := by
      rw [List.filter_append, hothers before hbefore, List.filter_cons_of_neg (by simp),
        hothers after hafter]
    rw [withoutDuplicate, if_pos hentry, hfilter]
    dsimp only
    rw [hindex]
    cases after with
    | nil =>
      have hlast : before.length = (before ++ [entry]).length - 1 := by simp
      rw [if_pos hlast, List.take_append_drop, withLast, if_pos List.getLast?_concat,
        List.append_nil]
    | cons next rest =>
      have hnot : before.length ≠ (before ++ entry :: next :: rest).length - 1 := by
        simp only [List.length_append, List.length_cons]
        omega
      have hkept : (before ++ entry :: next :: rest).take before.length ++
          (before ++ entry :: next :: rest).drop (before.length + 1) = before ++ next :: rest := by
        simp
      have hlast : (before ++ next :: rest).getLast? ≠ some entry := by
        intro heq
        rw [List.getLast?_append, List.getLast?_eq_some_getLast (List.cons_ne_nil _ _),
          Option.some_or] at heq
        exact hafter (Option.some.inj heq ▸ List.getLast_mem _)
      rw [if_neg hnot, hkept, withLast, if_neg hlast]
  · have hlast : entries.getLast? ≠ some entry :=
      fun heq ↦ hentry (List.mem_of_getLast? heq)
    rw [withoutDuplicate, if_neg hentry, withLast, if_neg hlast, hothers entries hentry]

/-- One more command. -/
theorem History.Holds.push {history : History} {size : ℕ} {commands : List Units}
    (hholds : history.Holds size commands) (entry : Units) :
    (history.push entry).Holds size (commands ++ [entry]) := by
  rw [History.push]
  by_cases hskip : entry = [] ∨ entry = units "!!"
  · have hkept : (commands ++ [entry]).filter isKept = commands.filter isKept := by
      have hentry : isKept entry = false := by
        rw [isKept, decide_eq_false_iff_not]
        tauto
      rw [List.filter_append, List.filter_singleton, hentry]
      simp
    rw [dif_pos hskip]
    exact ⟨hholds.size_eq, hkept ▸ hholds.entries_eq, hholds.cursor_eq⟩
  · have hkept : (commands ++ [entry]).filter isKept = commands.filter isKept ++ [entry] := by
      have hentry : isKept entry = true := by
        rw [isKept, decide_eq_true_iff]
        tauto
      rw [List.filter_append, List.filter_singleton, hentry]
      simp
    have hnodup : history.entries.Nodup := hholds.entries_eq ▸ nodup_recent _ _
    rw [dif_neg hskip]
    refine ⟨hholds.size_eq, ?_, rfl⟩
    dsimp only
    rw [hkept, recent_concat, withLast_withoutDuplicate hnodup, hholds.size_eq, hholds.entries_eq]

/-- Every sequence of commands. -/
theorem holds_pushAll (size : ℕ) (commands : List Units) :
    ((History.empty size).pushAll commands).Holds size commands := by
  induction commands using List.reverseRecOn with
  | nil =>
    refine ⟨rfl, ?_, rfl⟩
    rw [List.filter_nil, recent, List.dedup_nil, List.rtake_nil]
    rfl
  | append_singleton front entry ih =>
    rw [History.pushAll, List.foldl_append]
    exact ih.push entry

/-! ### Navigation -/

/-- The arrow keys. -/
inductive Move
  | previous
  | next

/-- What a move returns, and the history after it. -/
def History.move (history : History) : Move → Option Units × History
  | .previous => history.getPrevious
  | .next => history.getNext

/-- What the moves return one after the other, each with the cursor after it. -/
def History.navigate (history : History) : List Move → List (Option Units × ℕ)
  | [] => []
  | move :: moves =>
    let (value, history) := history.move move
    (value, history.cursor) :: history.navigate moves

/-- The reference: what a navigator shows after each move, with its place counted from the front. -/
def navigateReference (navigator : Navigator Units) : List Move → List (Option Units × ℕ)
  | [] => []
  | move :: moves =>
    let navigator :=
      match move with
      | .previous => navigator.previous
      | .next => navigator.next
    (navigator.shown, navigator.entries.length - navigator.back) :: navigateReference navigator moves

/-- A history stands where a navigator stands. -/
structure History.StandsAt (history : History) (navigator : Navigator Units) : Prop where
  entries_eq : history.entries = navigator.entries
  cursor_eq : history.cursor = navigator.entries.length - navigator.back

/-- The navigator that stands where a history does. -/
def History.navigator (history : History) : Navigator Units :=
  ⟨history.entries, history.entries.length - history.cursor, Nat.sub_le _ _⟩

theorem History.standsAt_navigator (history : History) : history.StandsAt history.navigator :=
  ⟨rfl, (Nat.sub_sub_self history.inside).symm⟩

/-- A step back. -/
theorem History.StandsAt.previous {history : History} {navigator : Navigator Units}
    (hstands : history.StandsAt navigator) :
    history.getPrevious.1 = navigator.previous.shown ∧
      history.getPrevious.2.StandsAt navigator.previous := by
  have hinside := navigator.inside
  have hindex : history.cursor - 1 =
      navigator.entries.length - min navigator.entries.length (navigator.back + 1) := by
    rw [hstands.cursor_eq]
    omega
  constructor
  · rw [Navigator.shown_eq_getElem?, History.getPrevious]
    dsimp only [Navigator.previous]
    rw [← hindex, hstands.entries_eq]
    split
    · rfl
    · next hout => rw [List.getElem?_eq_none (by omega)]
  · exact ⟨hstands.entries_eq, hindex⟩

/-- A step forth. -/
theorem History.StandsAt.next {history : History} {navigator : Navigator Units}
    (hstands : history.StandsAt navigator) :
    history.getNext.1 = navigator.next.shown ∧ history.getNext.2.StandsAt navigator.next := by
  have hinside := navigator.inside
  have hindex : min history.entries.length (history.cursor + 1) =
      navigator.entries.length - (navigator.back - 1) := by
    rw [hstands.cursor_eq, hstands.entries_eq]
    omega
  constructor
  · rw [Navigator.shown_eq_getElem?, History.getNext]
    dsimp only [Navigator.next]
    rw [hindex, hstands.entries_eq, if_pos (Nat.sub_le _ _)]
  · exact ⟨hstands.entries_eq, hindex⟩

/-- Every sequence of moves. -/
theorem History.StandsAt.navigate {history : History} {navigator : Navigator Units}
    (hstands : history.StandsAt navigator) (moves : List Move) :
    history.navigate moves = navigateReference navigator moves := by
  induction moves generalizing history navigator with
  | nil => rfl
  | cons move moves ih =>
    cases move with
    | previous =>
      obtain ⟨hvalue, hafter⟩ := hstands.previous
      have hcursor := hafter.cursor_eq
      rw [History.navigate, navigateReference]
      dsimp only [History.move]
      rw [ih hafter, hvalue, hcursor]
    | next =>
      obtain ⟨hvalue, hafter⟩ := hstands.next
      have hcursor := hafter.cursor_eq
      rw [History.navigate, navigateReference]
      dsimp only [History.move]
      rw [ih hafter, hvalue, hcursor]

/-- The cursor stays between the front and the end. -/
theorem History.cursor_navigate (history : History) (moves : List Move) :
    ∀ visit ∈ history.navigate moves, visit.2 ≤ history.entries.length := by
  induction moves generalizing history with
  | nil => exact fun visit hvisit ↦ absurd hvisit List.not_mem_nil
  | cons move moves ih =>
    have hentries : (history.move move).2.entries = history.entries := by
      cases move with
      | previous => rfl
      | next => rfl
    intro visit hvisit
    rw [← hentries]
    rcases List.mem_cons.mp hvisit with rfl | hvisit
    · exact (history.move move).2.inside
    · exact ih (history.move move).2 visit hvisit

/-- After every sequence of commands the entries are the last ones of the distinct commands other than
the empty one and `!!`, in the order of their last use, and every sequence of moves returns what the
reference shows, with the cursor within the entries. -/
theorem history_pushAll_navigate (size : ℕ) (commands : List Units) (moves : List Move) :
    let history := (History.empty size).pushAll commands
    history.entries = recent size (commands.filter isKept) ∧
      history.cursor ≤ history.entries.length ∧
      (∀ visit ∈ history.navigate moves, visit.2 ≤ history.entries.length) ∧
      history.navigate moves =
        navigateReference (Navigator.atEnd (recent size (commands.filter isKept))) moves := by
  intro history
  have hholds := holds_pushAll size commands
  have hstands : history.StandsAt (Navigator.atEnd (recent size (commands.filter isKept))) :=
    ⟨hholds.entries_eq, by rw [hholds.cursor_eq, hholds.entries_eq]; rfl⟩
  exact ⟨hholds.entries_eq, history.inside, history.cursor_navigate moves, hstands.navigate moves⟩

end Playground.Terminal
