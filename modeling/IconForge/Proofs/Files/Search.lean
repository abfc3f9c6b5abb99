import Mathlib.Data.List.Basic
import Mathlib.Data.List.Induction
import IconForge.Proofs.Files.Finding

set_option autoImplicit false

/-! # Searching a directory

A search below a location finds every file whose name has the ending, once, in ascending order
(`mem_filesBelow_iff`, `nodup_filesBelow`, `sorted_filesBelow`). Since names are totally ordered,
these three facts leave one list only (`eq_filesBelow`): what is found does not depend on the order
in which a file system keeps its entries. -/

namespace IconForge

/-! ## Orders on lists -/

structure IsTotalOrder {α : Type} (le : α → α → Bool) : Prop where
  total : ∀ a b, (le a b || le b a) = true
  antisymm : ∀ a b, le a b → le b a → a = b
  trans : ∀ a b c, le a b → le b c → le a c

/-- Whether a list stands in front of another one or is the same: they are compared by the first
items that differ. -/
def lexLE {α : Type} [DecidableEq α] (le : α → α → Bool) : List α → List α → Bool
  | [], _ => true
  | _ :: _, [] => false
  | a :: as, b :: bs => if a = b then lexLE le as bs else le a b

section Lexicographic

variable {α : Type} [DecidableEq α] {le : α → α → Bool}

theorem lexLE_cons_self (le : α → α → Bool) (a : α) (as bs : List α) :
    lexLE le (a :: as) (a :: bs) = lexLE le as bs := by
  rw [lexLE, if_pos rfl]

theorem lexLE_cons_of_ne (le : α → α → Bool) {a b : α} (h : a ≠ b) (as bs : List α) :
    lexLE le (a :: as) (b :: bs) = le a b := by
  rw [lexLE, if_neg h]

theorem IsTotalOrder.lexLE_total (h : IsTotalOrder le) (as bs : List α) :
    (lexLE le as bs || lexLE le bs as) = true := by
  induction as generalizing bs with
  | nil => rfl
  | cons a as ih =>
      cases bs with
      | nil => rfl
      | cons b bs =>
          by_cases heq : a = b
          · subst heq
            rw [lexLE_cons_self, lexLE_cons_self]
            exact ih bs
          · rw [lexLE_cons_of_ne le heq, lexLE_cons_of_ne le (Ne.symm heq)]
            exact h.total a b

theorem IsTotalOrder.lexLE_antisymm (h : IsTotalOrder le) {as bs : List α}
    (hforth : lexLE le as bs) (hback : lexLE le bs as) : as = bs := by
  induction as generalizing bs with
  | nil =>
      cases bs with
      | nil => rfl
      | cons b bs => cases hback
  | cons a as ih =>
      cases bs with
      | nil => cases hforth
      | cons b bs =>
          by_cases heq : a = b
          · subst heq
            rw [lexLE_cons_self] at hforth hback
            rw [ih hforth hback]
          · rw [lexLE_cons_of_ne le heq] at hforth
            rw [lexLE_cons_of_ne le (Ne.symm heq)] at hback
            exact absurd (h.antisymm a b hforth hback) heq

theorem IsTotalOrder.lexLE_trans (h : IsTotalOrder le) {as bs cs : List α}
    (hfirst : lexLE le as bs) (hsecond : lexLE le bs cs) : lexLE le as cs := by
  induction as generalizing bs cs with
  | nil => rfl
  | cons a as ih =>
      cases bs with
      | nil => cases hfirst
      | cons b bs =>
          cases cs with
          | nil => cases hsecond
          | cons c cs =>
              by_cases hab : a = b
              · subst hab
                by_cases hac : a = c
                · subst hac
                  rw [lexLE_cons_self] at hfirst hsecond ⊢
                  exact ih hfirst hsecond
                · rw [lexLE_cons_of_ne le hac] at hsecond ⊢
                  exact hsecond
              · rw [lexLE_cons_of_ne le hab] at hfirst
                by_cases hbc : b = c
                · subst hbc
                  rw [lexLE_cons_of_ne le hab]
                  exact hfirst
                · rw [lexLE_cons_of_ne le hbc] at hsecond
                  -- The first items rise twice, so they cannot be the same again.
                  have hac : a ≠ c := by
                    rintro rfl
                    exact hab (h.antisymm a b hfirst hsecond)
                  rw [lexLE_cons_of_ne le hac]
                  exact h.trans a b c hfirst hsecond

theorem IsTotalOrder.lexLE (h : IsTotalOrder le) : IsTotalOrder (lexLE le) where
  total := h.lexLE_total
  antisymm := fun _ _ => h.lexLE_antisymm
  trans := fun _ _ _ => h.lexLE_trans

end Lexicographic

theorem CodePoint.toNat_injective {a b : CodePoint} (h : a.toNat = b.toNat) : a = b := by
  -- No character has the number of a surrogate.
  have hdiffer : ∀ (c : Char) (half : Surrogate), c.toNat ≠ half.toNat := by
    intro c half heq
    have hvalid : c.toNat.isValidChar := c.valid
    have hrange := half.inRange
    rw [Nat.isValidChar, heq] at hvalid
    omega
  cases a with
  | char c =>
      cases b with
      | char d => exact congrArg CodePoint.char (Char.toNat_inj.1 h)
      | surrogate half => exact absurd h (hdiffer c half)
  | surrogate half =>
      cases b with
      | char d => exact absurd h.symm (hdiffer d half)
      | surrogate other =>
          obtain ⟨n, _⟩ := half
          obtain ⟨m, _⟩ := other
          obtain rfl : n = m := h
          rfl

theorem CodeText.le_eq_lexLE (text other : CodeText) :
    CodeText.le text other = lexLE (fun a b => decide (a.toNat ≤ b.toNat)) text other := by
  induction text generalizing other with
  | nil => rfl
  | cons a text ih =>
      cases other with
      | nil => rfl
      | cons b other => rw [CodeText.le, IconForge.lexLE, ih]

theorem CodeText.isTotalOrder_le : IsTotalOrder CodeText.le := by
  have hpoints : IsTotalOrder fun a b : CodePoint => decide (a.toNat ≤ b.toNat) := by
    constructor
    · intro a b
      rw [Bool.or_eq_true, decide_eq_true_eq, decide_eq_true_eq]
      exact Nat.le_total _ _
    · intro a b hforth hback
      rw [decide_eq_true_eq] at hforth hback
      exact CodePoint.toNat_injective (Nat.le_antisymm hforth hback)
    · intro a b c hfirst hsecond
      rw [decide_eq_true_eq] at hfirst hsecond ⊢
      exact Nat.le_trans hfirst hsecond
  have heq : CodeText.le = IconForge.lexLE fun a b => decide (a.toNat ≤ b.toNat) :=
    funext fun text => funext fun other => CodeText.le_eq_lexLE text other
  rw [heq]
  exact hpoints.lexLE

namespace FileSystem

theorem namesLE_eq_lexLE (names others : List CodeText) :
    namesLE names others = lexLE CodeText.le names others := by
  induction names generalizing others with
  | nil => rfl
  | cons name names ih =>
      cases others with
      | nil => rfl
      | cons other others => rw [namesLE, lexLE, ih]

theorem isTotalOrder_namesLE : IsTotalOrder namesLE := by
  have heq : namesLE = lexLE CodeText.le :=
    funext fun names => funext fun others => namesLE_eq_lexLE names others
  rw [heq]
  exact CodeText.isTotalOrder_le.lexLE

theorem namesLE_append (front names others : List CodeText) :
    namesLE (front ++ names) (front ++ others) = namesLE names others := by
  induction front with
  | nil => rfl
  | cons name front ih => rw [List.cons_append, List.cons_append, namesLE, if_pos rfl, ih]

end FileSystem

/-! ## Going down -/

namespace Location

theorem down_nil (here : Location) : here.down [] = here :=
  ext rfl

theorem down_append (here : Location) (front rest : List CodeText) :
    here.down (front ++ rest) = (here.down front).down rest := by
  apply ext
  show (front ++ rest).reverse ++ here.names = rest.reverse ++ (front.reverse ++ here.names)
  rw [List.reverse_append, List.append_assoc]

theorem down_concat (here : Location) (front : List CodeText) (last : CodeText) :
    here.down (front ++ [last]) = (here.down front).within last := by
  rw [down_append]
  exact ext rfl

theorem down_injective {here : Location} {names others : List CodeText}
    (h : here.down names = here.down others) : names = others := by
  have hnames : names.reverse ++ here.names = others.reverse ++ here.names :=
    congrArg Location.names h
  exact List.reverse_injective (List.append_cancel_right hnames)

/-- **The names below a location are those that lead down.** -/
theorem namesBelow?_eq_some_iff {here place : Location} {names : List CodeText} :
    here.namesBelow? place = some names ↔ place = here.down names := by
  constructor
  · intro h
    exact ext (FileSystem.names_of_namesBelow? h)
  · rintro rfl
    have hsuffix : here.names.isSuffixOf (here.down names).names :=
      List.isSuffixOf_iff_suffix.2 (List.suffix_append names.reverse here.names)
    have hcount : (here.down names).depth - here.depth = names.reverse.length := by
      rw [List.length_reverse]
      exact Nat.add_sub_cancel _ _
    have htake : (here.down names).names.take names.reverse.length = names.reverse :=
      List.take_left
    rw [namesBelow?, if_pos hsuffix, hcount, htake, List.reverse_reverse]

end Location

namespace FileSystem

open Text.Encoding

theorem walk_eq_down {names : List CodeText} (hup : upwards ∉ names) (here : Location) :
    walk here names = here.down names :=
  Location.ext (walk_names hup)

theorem mem_entries_iff {fs : FileSystem} {place : Location} {entry : Entry} :
    (place, entry) ∈ fs.entries ↔ place ≠ .top ∧ fs.get? place = some entry :=
  ⟨fun h => ⟨(fs.rooted _ h).1, get?_eq_some_of_mem h⟩, fun h => mem_entries_of_get? h.1 h.2⟩

/-- Whatever is below a location, the location is at it or a directory. -/
theorem get?_of_down {fs : FileSystem} {here : Location} {names : List CodeText} {entry : Entry}
    (h : fs.get? (here.down names) = some entry) :
    names = [] ∨ fs.get? here = some .directory := by
  induction names using List.reverseRecOn generalizing entry with
  | nil => exact Or.inl rfl
  | append_singleton front last ih =>
      rw [Location.down_concat] at h
      have habove := get?_above h
      rw [Location.above_within] at habove
      rcases ih habove with rfl | hdirectory
      · rw [Location.down_nil] at habove
        exact Or.inr habove
      · exact Or.inr hdirectory

/-- The names of whatever is in a file system are names of files. -/
theorem isFileName_of_get? {fs : FileSystem} {place : Location} {entry : Entry}
    (h : fs.get? place = some entry) : ∀ name ∈ place.names, isFileName name := by
  by_cases htop : place = .top
  · subst htop
    exact fun name hname => absurd hname List.not_mem_nil
  · exact fs.named _ (mem_entries_of_get? htop h)

theorem isFileName_of_down {fs : FileSystem} {here : Location} {names : List CodeText}
    {entry : Entry} (h : fs.get? (here.down names) = some entry) :
    ∀ name ∈ names, isFileName name :=
  fun name hname => isFileName_of_get? h name
    (List.mem_append_left _ (List.mem_reverse.2 hname))

theorem upwards_not_mem_of_down {fs : FileSystem} {here : Location} {names : List CodeText}
    {entry : Entry} (h : fs.get? (here.down names) = some entry) : upwards ∉ names :=
  fun hup => (isFileName_iff.1 (isFileName_of_down h _ hup)).2.1 rfl

theorem isDirectory_eq_true_iff {fs : FileSystem} {path : Path} :
    fs.isDirectory path = .ok true ↔
      ∃ location, fs.locate path = .ok location ∧ fs.get? location = some .directory := by
  rw [isDirectory, entryAt?]
  cases hlocate : fs.locate path with
  | error fault =>
      by_cases hlong : fault.obstacle = .nameTooLong
      · simp [hlong, Except.map]
      · simp [hlong, Except.map]
  | ok location => simp [Except.map]

/-! ## The way down -/

theorem below_parts {directory : Path} {names : List CodeText}
    (h : ∀ name ∈ names, isFileName name) :
    (directory.below names).parts = directory.parts ++ names := by
  refine List.filter_eq_self.2 fun part hpart => ?_
  rcases List.mem_append.1 hpart with hpart | hpart
  · exact directory.proper part hpart
  · exact (isFileName_iff.1 (h part hpart)).1

theorem below_nil (directory : Path) : directory.below [] = directory := by
  apply Path.ext
  · rfl
  · rw [below_parts (by simp), List.append_nil]

/-- Going down in two steps. -/
theorem below_append {directory : Path} {front rest : List CodeText}
    (hfront : ∀ name ∈ front, isFileName name) (hrest : ∀ name ∈ rest, isFileName name) :
    (directory.below front).below rest = directory.below (front ++ rest) := by
  apply Path.ext
  · rfl
  · rw [below_parts hrest, below_parts hfront, below_parts, List.append_assoc]
    intro name hname
    exact (List.mem_append.1 hname).elim (hfront name) (hrest name)

/-- The names of whatever is below a directory are spelled as they are. -/
theorem below_names {fs : FileSystem} {directory : Path} {here : Location} {names : List CodeText}
    {entry : Entry} (h : fs.get? (here.down names) = some entry) :
    (directory.below names).parts.map spellName = directory.parts.map spellName ++ names := by
  rw [below_parts (isFileName_of_down h), List.map_append]
  congr 1
  refine (List.map_congr_left fun name hname => ?_).trans (List.map_id names)
  exact (isFileName_iff.1 (isFileName_of_down h name hname)).2.2.2

/-- What names lead to in front of further ones that lead to something is a directory. -/
theorem directory_of_down {fs : FileSystem} {here : Location} {front : List CodeText}
    {name : CodeText} {rest : List CodeText} {entry : Entry}
    (h : fs.get? (here.down (front ++ name :: rest)) = some entry) :
    fs.get? (here.down front) = some .directory := by
  rw [Location.down_append] at h
  rcases get?_of_down h with hnil | hdirectory
  · cases hnil
  · exact hdirectory

/-- On the way to whatever is below a directory there are directories. -/
theorem directory_on_way {fs : FileSystem} {directoryNames names front rest : List CodeText}
    {name : CodeText} {entry : Entry} (hopen : fs.Open .top directoryNames)
    (h : fs.get? ((walk .top directoryNames).down names) = some entry)
    (hsplit : directoryNames ++ names = front ++ name :: rest) :
    fs.get? (walk .top front) = some .directory := by
  rcases List.append_eq_append_iff.1 hsplit with ⟨more, rfl, hnames⟩ | ⟨more, rfl, hrest⟩
  · -- The place is below the directory, or the directory itself.
    subst hnames
    have hup : upwards ∉ more := fun hmem =>
      upwards_not_mem_of_down h (List.mem_append_left _ hmem)
    rw [walk_append, walk_eq_down hup]
    exact directory_of_down h
  · cases more with
    | nil =>
        rw [List.append_nil] at h
        rw [List.nil_append] at hrest
        rw [← hrest] at h
        have hdirectory := @directory_of_down fs _ [] _ _ _ h
        rwa [Location.down_nil] at hdirectory
    | cons other more =>
        rw [open_append] at hopen
        exact hopen.2.1

/-- **The path of whatever is below a directory passes directories, and what it leads to.** -/
theorem passes_below {fs : FileSystem} {directory : Path} {here : Location}
    (hlocate : fs.locate directory = .ok here) {names : List CodeText} {entry : Entry}
    (h : fs.get? (here.down names) = some entry) {place : Location}
    (hpasses : Passes (directory.below names) place) :
    fs.get? place = some .directory ∨ place = here.down names := by
  obtain ⟨directoryNames, hnames, rfl, hopen⟩ := locate_eq_ok_iff.1 hlocate
  obtain ⟨-, -, -, rfl⟩ := namesOf_eq_ok_iff.1 hnames
  obtain ⟨front, ⟨rest, hrest⟩, rfl⟩ := hpasses
  rw [below_names h] at hrest
  cases rest with
  | nil =>
      rw [List.append_nil] at hrest
      rw [hrest, walk_append, walk_eq_down (upwards_not_mem_of_down h)]
      exact Or.inr rfl
  | cons name rest => exact Or.inl (directory_on_way hopen h hrest.symm)

theorem parent_below {fs : FileSystem} {directory : Path} {here : Location}
    {front : List CodeText} {last : CodeText} {entry : Entry}
    (h : fs.get? (here.down (front ++ [last])) = some entry) :
    (directory.below (front ++ [last])).parent = directory.below front := by
  apply Path.ext
  · rfl
  · rw [parent_parts, below_parts (isFileName_of_down h),
      below_parts (isFileName_of_down (directory_of_down h)), ← List.append_assoc,
      List.dropLast_concat]

/-- The path of the directory that holds something below passes directories only. -/
theorem passes_parent_below {fs : FileSystem} {directory : Path} {here : Location}
    (hlocate : fs.locate directory = .ok here) {front : List CodeText} {last : CodeText}
    {entry : Entry} (h : fs.get? (here.down (front ++ [last])) = some entry) {place : Location}
    (hpasses : Passes (directory.below (front ++ [last])).parent place) :
    fs.get? place = some .directory := by
  have hfront := directory_of_down h
  rw [parent_below h] at hpasses
  rcases passes_below hlocate hfront hpasses with hdirectory | rfl
  · exact hdirectory
  · exact hfront

/-! ## What is found -/

theorem lastHas_iff {ending : CodeText} {names : List CodeText} :
    lastHas ending names ↔ ending <:+ names.getLastD [] :=
  List.isSuffixOf_iff_suffix

/-- **What a search finds**: the names that lead down to a file and end with the ending; without
going deeper, single names. -/
theorem mem_filesBelow_iff {fs : FileSystem} {here : Location} {ending : CodeText}
    {recursive : Bool} {names : List CodeText} :
    names ∈ fs.filesBelow here ending recursive ↔
      (∃ bytes, fs.get? (here.down names) = some (.file bytes)) ∧
        (recursive = true ∨ names.length = 1) ∧ ending <:+ names.getLastD [] := by
  rw [filesBelow, List.mem_mergeSort, List.mem_filterMap]
  have hkept : ∀ found : List CodeText,
      ((recursive || found.length = 1) && lastHas ending found) = true ↔
        (recursive = true ∨ found.length = 1) ∧ ending <:+ found.getLastD [] := by
    intro found
    rw [Bool.and_eq_true, Bool.or_eq_true, decide_eq_true_eq, lastHas_iff]
  constructor
  · rintro ⟨⟨place, entry⟩, hmem, hfound⟩
    cases entry with
    | directory => cases hfound
    | file bytes =>
        cases hbelow : here.namesBelow? place with
        | none =>
            simp only [hbelow] at hfound
            cases hfound
        | some found =>
            simp only [hbelow] at hfound
            split at hfound
            · next hfits =>
              cases hfound
              rw [Location.namesBelow?_eq_some_iff] at hbelow
              subst hbelow
              exact ⟨⟨bytes, (mem_entries_iff.1 hmem).2⟩, (hkept names).1 hfits⟩
            · cases hfound
  · rintro ⟨⟨bytes, hfile⟩, hfits⟩
    refine ⟨(here.down names, .file bytes), mem_entries_iff.2 ⟨?_, hfile⟩, ?_⟩
    · -- The top is no file.
      intro htop
      rw [htop, get?_top] at hfile
      cases hfile
    · simp only [Location.namesBelow?_eq_some_iff.2 rfl, if_pos ((hkept names).2 hfits)]

theorem nodup_filesBelow (fs : FileSystem) (here : Location) (ending : CodeText)
    (recursive : Bool) : (fs.filesBelow here ending recursive).Nodup := by
  rw [filesBelow, (List.mergeSort_perm _ _).nodup_iff]
  have hplaces : fs.entries.Pairwise fun item other => item.1 ≠ other.1 :=
    List.pairwise_map.1 fs.nodup
  refine List.Pairwise.filterMap _ ?_ hplaces
  rintro ⟨place, entry⟩ ⟨other, entry'⟩ hne names hnames others hothers rfl
  -- The same names lead to one place.
  apply hne
  cases entry with
  | directory => cases hnames
  | file bytes =>
      cases entry' with
      | directory => cases hothers
      | file bytes' =>
          cases hbelow : here.namesBelow? place with
          | none =>
              simp only [hbelow] at hnames
              cases hnames
          | some found =>
              cases hbelow' : here.namesBelow? other with
              | none =>
                  simp only [hbelow'] at hothers
                  cases hothers
              | some found' =>
                  simp only [hbelow, hbelow'] at hnames hothers
                  split at hnames
                  · split at hothers
                    · cases hnames
                      cases hothers
                      rw [Location.namesBelow?_eq_some_iff] at hbelow hbelow'
                      exact hbelow.trans hbelow'.symm
                    · cases hothers
                  · cases hnames

theorem sorted_filesBelow (fs : FileSystem) (here : Location) (ending : CodeText)
    (recursive : Bool) :
    (fs.filesBelow here ending recursive).Pairwise fun names others => namesLE names others :=
  List.pairwise_mergeSort isTotalOrder_namesLE.trans isTotalOrder_namesLE.total _

/-- There is one list of some names in ascending order. -/
theorem eq_of_ascending {found other : List (List CodeText)}
    (hmem : ∀ names, names ∈ found ↔ names ∈ other) (hnodup : found.Nodup) (hother : other.Nodup)
    (hsorted : found.Pairwise fun names others => namesLE names others)
    (hsorted' : other.Pairwise fun names others => namesLE names others) : found = other :=
  List.Perm.eq_of_pairwise (fun names others _ _ => isTotalOrder_namesLE.antisymm names others)
    hsorted hsorted' ((List.perm_ext_iff_of_nodup hnodup hother).2 hmem)

/-- **What is found in ascending order and once is all there is to find.** -/
theorem eq_filesBelow {fs : FileSystem} {here : Location} {ending : CodeText} {recursive : Bool}
    {found : List (List CodeText)}
    (hmem : ∀ names, names ∈ found ↔ names ∈ fs.filesBelow here ending recursive)
    (hnodup : found.Nodup) (hsorted : found.Pairwise fun names others => namesLE names others) :
    found = fs.filesBelow here ending recursive :=
  eq_of_ascending hmem hnodup (nodup_filesBelow fs here ending recursive) hsorted
    (sorted_filesBelow fs here ending recursive)

/-- The files that a search comes to, in the order of the entries. -/
def unsortedBelow (fs : FileSystem) (here : Location) (ending : CodeText) (recursive : Bool) :
    List (List CodeText) :=
  fs.entries.filterMap fun (place, entry) =>
    match entry, here.namesBelow? place with
    | .file _, some names =>
      if (recursive || names.length = 1) && lastHas ending names then some names else none
    | _, _ => none

theorem filesBelow_of_sorted {fs : FileSystem} {here : Location} {ending : CodeText}
    {recursive : Bool}
    (h : (fs.unsortedBelow here ending recursive).Pairwise fun names others =>
      namesLE names others) :
    fs.filesBelow here ending recursive = fs.unsortedBelow here ending recursive :=
  List.mergeSort_of_pairwise h

/-! ## Where a search looks -/

/-- **Where a search looks**: at what ends with the ending, without going deeper at single names
only, and otherwise also at every directory. -/
theorem mem_searched_iff {fs : FileSystem} {here : Location} {ending : CodeText} {recursive : Bool}
    {names : List CodeText} :
    names ∈ fs.searched here ending recursive ↔
      here.down names ≠ .top ∧ ∃ entry, fs.get? (here.down names) = some entry ∧
        ((recursive = true ∨ names.length = 1) ∧ ending <:+ names.getLastD [] ∨
          recursive = true ∧ entry = .directory) := by
  rw [searched, List.mem_mergeSort, List.mem_filterMap]
  -- What is kept of a place below, as a proposition.
  have hkept : ∀ (found : List CodeText) (entry : Entry),
      (((recursive || found.length = 1) && lastHas ending found) ||
        (recursive && entry = .directory)) = true ↔
          (recursive = true ∨ found.length = 1) ∧ ending <:+ found.getLastD [] ∨
            recursive = true ∧ entry = .directory := by
    intro found entry
    rw [Bool.or_eq_true, Bool.and_eq_true, Bool.and_eq_true, Bool.or_eq_true, decide_eq_true_eq,
      decide_eq_true_eq, lastHas_iff]
  constructor
  · rintro ⟨⟨place, entry⟩, hmem, hfound⟩
    cases hbelow : here.namesBelow? place with
    | none =>
        simp only [hbelow] at hfound
        cases hfound
    | some found =>
        simp only [hbelow] at hfound
        split at hfound
        · next hfits =>
          cases hfound
          rw [Location.namesBelow?_eq_some_iff] at hbelow
          subst hbelow
          obtain ⟨htop, hentry⟩ := mem_entries_iff.1 hmem
          exact ⟨htop, entry, hentry, (hkept names entry).1 hfits⟩
        · cases hfound
  · rintro ⟨htop, entry, hentry, hfits⟩
    refine ⟨(here.down names, entry), mem_entries_iff.2 ⟨htop, hentry⟩, ?_⟩
    simp only [Location.namesBelow?_eq_some_iff.2 rfl, if_pos ((hkept names entry).2 hfits)]

/-- The places where a search looks, in the order of the entries. -/
def unsortedSearched (fs : FileSystem) (here : Location) (ending : CodeText) (recursive : Bool) :
    List (List CodeText) :=
  fs.entries.filterMap fun (place, entry) =>
    match here.namesBelow? place with
    | some names =>
      if ((recursive || names.length = 1) && lastHas ending names) ||
          (recursive && entry = .directory) then some names
      else none
    | none => none

theorem mem_searched_iff_unsorted {fs : FileSystem} {here : Location} {ending : CodeText}
    {recursive : Bool} {names : List CodeText} :
    names ∈ fs.searched here ending recursive ↔
      names ∈ fs.unsortedSearched here ending recursive :=
  List.mem_mergeSort

end FileSystem

end IconForge
