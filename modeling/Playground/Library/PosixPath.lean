import Playground.Library.FileSystem
import Mathlib.Data.List.TakeWhile

/-!
# Relative paths of an operating system

A path is a string. `joinPath` and `parentPath` take it apart and put it together as `std::path` does
on Unix: joining an absolute path replaces the base, and the parent of a path is the path without
its last component. `locate` is where a path leads from a working directory: an absolute path starts
at the root, empty components and `.` stay where they are, and `..` goes up, the root being above
itself.

A path without `..` can only lead down (`locate_of_descends`), which is how a path that was put
together from a base and a part is shown to stay below the base.

Not formalized here: symbolic links, which a path may follow to anywhere.
-/

set_option autoImplicit false
set_option relaxedAutoImplicit false

namespace Playground.Library

/-! ### Joining and parents -/

/-- `Path::join`. -/
def joinPath (base path : List Char) : List Char :=
  if path.head? = some '/' then path
  else if base = [] ∨ base.getLast? = some '/' then base ++ path
  else base ++ '/' :: path

/-- The components that are normalized away after the first one. -/
def isRedundant (part : Component) : Bool :=
  part = [] || part = ['.']

/-- `Path::parent`. -/
def parentPath (path : List Char) : Option (List Char) :=
  match path.splitOn '/' with
  | [] => none
  | first :: rest =>
    match rest.reverse.dropWhile isRedundant with
    | [] => if first = [] then none else some []
    | _ :: above =>
      let others := (above.dropWhile isRedundant).reverse
      if others = [] ∧ first = [] then some ['/']
      else some (['/'].intercalate (first :: others))

/-! ### Places -/

/-- Follow one component from a place, the root being above itself. -/
def followStep (above : List Component) (part : Component) : List Component :=
  if isRedundant part then above
  else if part = ['.', '.'] then above.dropLast
  else above ++ [part]

/-- Where a path starts. -/
def origin (workingDir : List Component) (path : List Char) : List Component :=
  if path.head? = some '/' then [] else workingDir

/-- Where a path leads from a working directory. -/
def locate (workingDir : List Component) (path : List Char) : List Component :=
  (path.splitOn '/').foldl followStep (origin workingDir path)

/-- A component leads one level down. -/
theorem followStep_of_isComponent {name : Component} (hname : IsComponent name)
    (above : List Component) : followStep above name = above ++ [name] := by
  obtain ⟨hempty, hdot, hdots, -⟩ := hname
  simp [followStep, isRedundant, hempty, hdot, hdots]

/-- A relative path that is joined to a base goes on from where the base leads. -/
theorem locate_joinPath (workingDir : List Component) (base : List Char) {path : List Char}
    (hrelative : path.head? ≠ some '/') :
    locate workingDir (joinPath base path) =
      (path.splitOn '/').foldl followStep (locate workingDir base) := by
  rw [joinPath, if_neg hrelative]
  by_cases hbase : base = [] ∨ base.getLast? = some '/'
  · rw [if_pos hbase]
    rcases hbase with rfl | hlast
    · simp [locate, origin, hrelative, followStep, isRedundant]
    · obtain ⟨front, rfl⟩ := List.getLast?_eq_some_iff.mp hlast
      have horigin : origin workingDir (front ++ '/' :: path) =
          origin workingDir (front ++ ['/']) := by
        cases front <;> simp [origin]
      rw [List.append_assoc, List.singleton_append, locate, locate, horigin,
        List.splitOn_append_cons_self, List.splitOn_append_cons_self, List.foldl_append,
        List.foldl_append]
      simp [followStep, isRedundant]
  · rw [if_neg hbase]
    have horigin : origin workingDir (base ++ '/' :: path) = origin workingDir base := by
      cases base with
      | nil => simp at hbase
      | cons first rest => simp [origin]
    rw [locate, horigin, List.splitOn_append_cons_self, List.foldl_append]
    rfl

/-- Joining a component leads one level down. -/
theorem locate_joinPath_component (workingDir : List Component) (base : List Char)
    {name : Component} (hname : IsComponent name) :
    locate workingDir (joinPath base name) = locate workingDir base ++ [name] := by
  have hslash : '/' ∉ name := hname.2.2.2
  have hrelative : name.head? ≠ some '/' := by
    intro hhead
    exact hslash (List.mem_of_mem_head? hhead)
  rw [locate_joinPath workingDir base hrelative, List.splitOn_eq_singleton hslash,
    List.foldl_cons, List.foldl_nil, followStep_of_isComponent hname]

/-- The parts of a relative path that is joined to a base come after those of the base. -/
theorem splitOn_joinPath {base path : List Char} (hbase : base ≠ [])
    (hlast : base.getLast? ≠ some '/') (hrelative : path.head? ≠ some '/') :
    (joinPath base path).splitOn '/' = base.splitOn '/' ++ path.splitOn '/' := by
  have hnone : ¬ (base = [] ∨ base.getLast? = some '/') := by
    rintro (hempty | hslash)
    · exact hbase hempty
    · exact hlast hslash
  rw [joinPath, if_neg hrelative, if_neg hnone, List.splitOn_append_cons_self]

/-- A component that is joined to a base is the last of its parts. -/
theorem splitOn_joinPath_component {base : List Char} {name : Component} (hbase : base ≠ [])
    (hlast : base.getLast? ≠ some '/') (hname : IsComponent name) :
    (joinPath base name).splitOn '/' = base.splitOn '/' ++ [name] := by
  have hslash : '/' ∉ name := hname.2.2.2
  rw [splitOn_joinPath hbase hlast (fun hhead ↦ hslash (List.mem_of_mem_head? hhead)),
    List.splitOn_eq_singleton hslash]

/-- A path that ends with a component does not end with a slash. -/
theorem getLast?_joinPath_component {base : List Char} {name : Component}
    (hname : IsComponent name) : (joinPath base name).getLast? ≠ some '/' := by
  have hslash : '/' ∉ name := hname.2.2.2
  have hlast : name.getLast? ≠ some '/' := fun h ↦ hslash (List.mem_of_getLast? h)
  have hsome : ∃ last, name.getLast? = some last :=
    ⟨_, List.getLast?_eq_some_getLast hname.1⟩
  obtain ⟨last, hsome⟩ := hsome
  rw [hsome] at hlast
  unfold joinPath
  by_cases habsolute : name.head? = some '/'
  · rw [if_pos habsolute, hsome]
    exact hlast
  · rw [if_neg habsolute]
    split
    · simpa [List.getLast?_append, hsome] using hlast
    · simpa [List.getLast?_append, List.getLast?_cons, hsome] using hlast

/-! ### Paths that only lead down -/

/-- A path none of whose components goes up. -/
def Descends (path : List Char) : Prop :=
  ['.', '.'] ∉ path.splitOn '/'

instance (path : List Char) : Decidable (Descends path) :=
  inferInstanceAs (Decidable (_ ∉ _))

/-- The components that lead down. -/
def namesOf (path : List Char) : List Component :=
  (path.splitOn '/').filter fun part ↦ !isRedundant part

/-- Following components none of which goes up appends them. -/
theorem foldl_followStep_of_notMem {parts : List Component} (hup : ['.', '.'] ∉ parts) :
    ∀ above : List Component,
      parts.foldl followStep above = above ++ parts.filter fun part ↦ !isRedundant part := by
  induction parts with
  | nil => simp
  | cons part rest ih =>
    intro above
    have hpart : part ≠ ['.', '.'] := fun heq ↦ hup (by simp [heq])
    have hrest : ['.', '.'] ∉ rest := fun hmem ↦ hup (List.mem_cons_of_mem _ hmem)
    rw [List.foldl_cons, ih hrest]
    by_cases hskip : isRedundant part = true
    · simp [followStep, hskip]
    · simp [followStep, hskip, hpart]

/-- Where a path leads that does not go up. -/
theorem locate_of_descends (workingDir : List Component) {path : List Char}
    (hdown : Descends path) :
    locate workingDir path = origin workingDir path ++ namesOf path :=
  foldl_followStep_of_notMem hdown _

/-- A path that does not contain `..` does not go up. -/
theorem descends_of_not_infix {path : List Char} (hdots : ¬ ['.', '.'] <:+: path) :
    Descends path := by
  intro hmem
  obtain ⟨before, after, hsplit⟩ := List.append_of_mem hmem
  apply hdots
  have hjoin : ['/'].intercalate (path.splitOn '/') = path := List.intercalate_splitOn '/'
  rw [← hjoin, hsplit]
  clear hjoin hsplit hmem
  induction before with
  | nil =>
    cases after with
    | nil => simp [List.intercalate]
    | cons next rest =>
      rw [List.nil_append, List.intercalate_cons_cons]
      exact ⟨[], _, by rw [List.nil_append, List.append_assoc]⟩
  | cons first rest ih =>
    cases hrest : rest ++ ['.', '.'] :: after with
    | nil => simp at hrest
    | cons next others =>
      rw [List.cons_append, hrest, List.intercalate_cons_cons, ← hrest]
      exact ih.trans (List.suffix_append _ _).isInfix

/-- The parts of a path begin with an empty one if the path is absolute. -/
theorem head?_intercalate {first : Component} (rest : List Component) (hslash : '/' ∉ first) :
    (['/'].intercalate (first :: rest)).head? = some '/' ↔ first = [] ∧ rest ≠ [] := by
  cases rest with
  | nil =>
    rw [List.intercalate_singleton]
    constructor
    · intro hhead
      exact absurd (List.mem_of_mem_head? hhead) hslash
    · intro hnone
      exact absurd rfl hnone.2
  | cons next rest =>
    rw [List.intercalate_cons_cons]
    cases first with
    | nil => simp
    | cons char chars =>
      have hchar : char ≠ '/' := fun heq ↦ hslash (by simp [heq])
      simp [hchar]

/-- Dropping redundant components from the end keeps the ones that lead down. -/
theorem filter_dropWhile_reverse (parts : List Component) :
    ((parts.reverse.dropWhile isRedundant).reverse.filter fun part ↦ !isRedundant part) =
      parts.filter fun part ↦ !isRedundant part := by
  have hsplit := List.takeWhile_append_dropWhile (p := isRedundant) (l := parts.reverse)
  have hparts : parts = (parts.reverse.dropWhile isRedundant).reverse ++
      (parts.reverse.takeWhile isRedundant).reverse := by
    rw [← List.reverse_append, hsplit, List.reverse_reverse]
  have hnone : ((parts.reverse.takeWhile isRedundant).reverse.filter
      fun part ↦ !isRedundant part) = [] := by
    rw [List.filter_eq_nil_iff]
    intro part hpart
    simpa using List.mem_takeWhile_imp (List.mem_reverse.mp hpart)
  conv_rhs => rw [hparts, List.filter_append, hnone, List.append_nil]

/-- The parent of a path that does not go up leads one level less down. -/
theorem locate_parentPath (workingDir : List Component) {path parent : List Char}
    (hdown : Descends path) (hparent : parentPath path = some parent) :
    locate workingDir parent = origin workingDir path ++ (namesOf path).dropLast := by
  have hslash := @not_mem_of_mem_splitOn '/' path
  have hjoin : ['/'].intercalate (path.splitOn '/') = path := List.intercalate_splitOn '/'
  unfold parentPath at hparent
  unfold namesOf
  unfold Descends at hdown
  cases hparts : path.splitOn '/' with
  | nil => exact absurd hparts (List.splitOn_ne_nil _ _)
  | cons first rest =>
    simp only [hparts] at hparent hslash hjoin hdown
    have hfirst := hslash first List.mem_cons_self
    have hhead := head?_intercalate rest hfirst
    rw [hjoin] at hhead
    have hrest := filter_dropWhile_reverse rest
    cases hkept : rest.reverse.dropWhile isRedundant with
    | nil =>
      simp only [hkept, List.reverse_nil, List.filter_nil] at hparent hrest
      by_cases hnone : first = []
      · simp [hnone] at hparent
      · obtain rfl : [] = parent := by simpa [hnone] using hparent
        have hrelative : path.head? ≠ some '/' := fun habs ↦ hnone (hhead.mp habs).1
        have hnames : ((first :: rest).filter fun part ↦ !isRedundant part).dropLast = [] := by
          rw [List.filter_cons, ← hrest]
          split <;> rfl
        rw [hnames]
        simp [locate, origin, hrelative, followStep, isRedundant]
    | cons name above =>
      have hname : isRedundant name = false := by
        have hhead := List.head?_dropWhile_not isRedundant rest.reverse
        rw [hkept] at hhead
        simpa using hhead
      have hne : rest ≠ [] := by
        rintro rfl
        simp at hkept
      simp only [hkept, List.reverse_cons, List.filter_append, List.filter_singleton, hname,
        Bool.not_false] at hparent hrest
      have habove := filter_dropWhile_reverse above.reverse
      rw [List.reverse_reverse] at habove
      have hnames : ((first :: rest).filter fun part ↦ !isRedundant part).dropLast =
          (first :: (above.dropWhile isRedundant).reverse).filter
            fun part ↦ !isRedundant part := by
        rw [List.filter_cons, List.filter_cons, habove, ← hrest]
        split <;> simp [List.dropLast_cons_of_ne_nil]
      rw [hnames]
      by_cases hroot : (above.dropWhile isRedundant).reverse = [] ∧ first = []
      · obtain rfl : ['/'] = parent := by simpa [hroot] using hparent
        have habsolute : path.head? = some '/' := hhead.mpr ⟨hroot.2, hne⟩
        have hsplit : ['/'].splitOn '/' = [[], []] := by decide
        simp [locate, origin, habsolute, hroot, hsplit, followStep, isRedundant]
      · rw [if_neg hroot] at hparent
        obtain rfl := Option.some.inj hparent
        have hmem : ∀ part ∈ first :: (above.dropWhile isRedundant).reverse,
            part ∈ first :: rest := by
          intro part hpart
          rcases List.mem_cons.mp hpart with rfl | hpart
          · exact List.mem_cons_self
          · have hkeptMem : part ∈ rest.reverse.dropWhile isRedundant := by
              rw [hkept]
              exact List.mem_cons_of_mem _
                ((List.dropWhile_sublist _).subset (List.mem_reverse.mp hpart))
            exact List.mem_cons_of_mem _
              (List.mem_reverse.mp ((List.dropWhile_sublist _).subset hkeptMem))
        have hsplit : (['/'].intercalate (first :: (above.dropWhile isRedundant).reverse)).splitOn
            '/' = first :: (above.dropWhile isRedundant).reverse :=
          List.splitOn_intercalate '/' (fun part hpart ↦ hslash part (hmem part hpart))
            (List.cons_ne_nil _ _)
        have horigin : origin workingDir
            (['/'].intercalate (first :: (above.dropWhile isRedundant).reverse)) =
              origin workingDir path := by
          have hparentHead := head?_intercalate (above.dropWhile isRedundant).reverse hfirst
          by_cases hnone : first = []
          · have hmore : (above.dropWhile isRedundant).reverse ≠ [] := fun h ↦ hroot ⟨h, hnone⟩
            simp only [origin, hhead.mpr ⟨hnone, hne⟩, hparentHead.mpr ⟨hnone, hmore⟩]
          · have hrelative : path.head? ≠ some '/' := fun h ↦ hnone (hhead.mp h).1
            have hother := fun h ↦ hnone (hparentHead.mp h).1
            simp only [origin, if_neg hrelative, if_neg hother]
        rw [locate, hsplit, horigin]
        exact foldl_followStep_of_notMem (fun hup ↦ hdown (hmem _ hup)) _

end Playground.Library
