import Montage.Proofs.Check
import Montage.Proofs.Path

/-!
# Files in a folder

What stands at the path of a name in a folder: after it was written, after it was removed, and after
something else in the tree was changed.

* `Tree.find?_put`, `Tree.find?_erase`: one entry is changed and no other.
* `Tree.walk_mono`: a walk goes the same way in a tree that keeps the folders on it.
* `Tree.walk_erase`: what becomes of a walk when something is erased.
* `Host.find_joinText_iff`: a name is found in a folder just if the folder is, and the name in it.
* `Host.find_of_write`, `Host.remove_ok`: the trees that writing and removing make.
* `Host.IsAbsent`, `Host.IsRemovable`: nothing stands at a path, or nothing that could not be removed.
-/

namespace Montage

/-! ## Entries -/

namespace Tree

theorem lookup_filter_ne (entries : List (Location × Entry)) (l l' : Location) :
    (entries.filter (·.1 ≠ l)).lookup l' = if l' = l then none else entries.lookup l' := by
  induction entries with
  | nil => simp
  | cons e entries ih =>
    obtain ⟨k, entry⟩ := e
    by_cases hk : k = l
    · subst hk
      simp only [ne_eq, not_true_eq_false, decide_false, Bool.false_eq_true, not_false_eq_true,
        List.filter_cons_of_neg]
      rw [ih, List.lookup_cons]
      by_cases hl : l' = k
      · simp [hl]
      · have : (l' == k) = false := by simpa using hl
        simp [hl, this]
    · simp only [ne_eq, hk, not_false_eq_true, decide_true, List.filter_cons_of_pos,
        List.lookup_cons]
      by_cases hl : l' = k
      · subst hl
        simp [hk]
      · have : (l' == k) = false := by simpa using hl
        simp only [this]
        exact ih

variable {t t' : Tree} {l l' here : Location} {e : Entry} {parts : List String}

theorem find?_put (t : Tree) (hl : l ≠ []) (e : Entry) (l' : Location) :
    (t.put l e).find? l' = if l' = l then some e else t.find? l' := by
  unfold find? put
  by_cases h : l' = l
  · subst h
    simp [hl]
  · have : (l' == l) = false := by simpa using h
    simp only [List.lookup_cons, this, lookup_filter_ne, h, if_false]

theorem find?_erase (t : Tree) (hl : l ≠ []) (l' : Location) :
    (t.erase l).find? l' = if l' = l then none else t.find? l' := by
  unfold find? erase
  by_cases h : l' = l
  · subst h
    rw [lookup_filter_ne]
    simp [hl]
  · rw [lookup_filter_ne]
    simp [h]

/-! ## Walks -/

theorem step_eq_ok {part : String} :
    t.step here part = .ok l ↔
      ∃ s, t.find? here = some (.folder s) ∧ t.barred (Path.follow here part) = none ∧
        l = Path.follow here part := by
  unfold step
  rcases t.find? here with _ | _ | isSealed
  · simp
  · simp
  · rcases t.barred (Path.follow here part) with _ | fault
    · simp [eq_comm]
    · simp

theorem walk_nil_eq_ok : t.walk here [] = .ok (l, e) ↔ l = here ∧ t.find? here = some e := by
  rw [walk]
  cases t.find? here with
  | none => simp
  | some entry => simp [eq_comm]

theorem walk_cons_eq_ok {part : String} :
    t.walk here (part :: parts) = .ok (l, e) ↔
      ∃ next, t.step here part = .ok next ∧ t.walk next parts = .ok (l, e) := by
  rw [walk]
  cases t.step here part with
  | error fault => simp
  | ok next => simp

/-- A walk ends where something stands. -/
theorem find?_of_walk (h : t.walk here parts = .ok (l, e)) : t.find? l = some e := by
  induction parts generalizing here with
  | nil =>
    obtain ⟨rfl, he⟩ := walk_nil_eq_ok.mp h
    exact he
  | cons part rest ih =>
    obtain ⟨next, -, hrest⟩ := walk_cons_eq_ok.mp h
    exact ih hrest

/-- The last part of a walk is taken from a folder. -/
theorem walk_concat_iff {part : String} :
    t.walk here (parts ++ [part]) = .ok (l, e) ↔
      ∃ m s, t.walk here parts = .ok (m, .folder s) ∧ t.barred (Path.follow m part) = none ∧
        l = Path.follow m part ∧ t.find? l = some e := by
  induction parts generalizing here with
  | nil =>
    rw [List.nil_append, walk_cons_eq_ok]
    simp only [walk_nil_eq_ok, step_eq_ok]
    constructor
    · rintro ⟨next, ⟨s, hhere, hfree, rfl⟩, rfl, he⟩
      exact ⟨here, s, ⟨rfl, hhere⟩, hfree, rfl, he⟩
    · rintro ⟨m, s, ⟨rfl, hhere⟩, hfree, rfl, he⟩
      exact ⟨_, ⟨s, hhere, hfree, rfl⟩, rfl, he⟩
  | cons first rest ih =>
    rw [List.cons_append, walk_cons_eq_ok]
    simp only [walk_cons_eq_ok, ih]
    constructor
    · rintro ⟨next, hs, m, s, hm, hrest⟩
      exact ⟨m, s, ⟨next, hs, hm⟩, hrest⟩
    · rintro ⟨m, s, ⟨next, hs, hm⟩, hrest⟩
      exact ⟨next, hs, m, s, hm, hrest⟩

/-- A walk of at least one step does not end at a barred location. -/
theorem barred_of_walk (hparts : parts ≠ []) (h : t.walk here parts = .ok (l, e)) :
    t.barred l = none := by
  rw [← List.dropLast_concat_getLast hparts] at h
  obtain ⟨m, s, -, hfree, rfl, -⟩ := walk_concat_iff.mp h
  exact hfree

/-- A walk goes the same way in a tree that keeps the folders and what stands at its end. -/
theorem walk_mono (hbarred : t'.barred = t.barred)
    (hfolders : ∀ m s, t.find? m = some (.folder s) → t'.find? m = some (.folder s))
    (hend : t'.find? l = some e) (h : t.walk here parts = .ok (l, e)) :
    t'.walk here parts = .ok (l, e) := by
  induction parts generalizing here with
  | nil =>
    obtain ⟨rfl, -⟩ := walk_nil_eq_ok.mp h
    exact walk_nil_eq_ok.mpr ⟨rfl, hend⟩
  | cons part rest ih =>
    obtain ⟨next, hs, hrest⟩ := walk_cons_eq_ok.mp h
    obtain ⟨s, hhere, hfree, rfl⟩ := step_eq_ok.mp hs
    rw [← hbarred] at hfree
    exact walk_cons_eq_ok.mpr ⟨_, step_eq_ok.mpr ⟨s, hfolders here s hhere, hfree, rfl⟩, ih hrest⟩

/-- With an entry less a walk ends where it did, or as it failed, or because something is missing. -/
theorem walk_erase (t : Tree) (hl : l ≠ []) (here : Location) (parts : List String) :
    (∃ m e, m ≠ l ∧ t.walk here parts = .ok (m, e) ∧ (t.erase l).walk here parts = .ok (m, e)) ∨
      (t.erase l).walk here parts = .error .noSuchFile ∨
      (t.erase l).walk here parts = t.walk here parts ∧ ∃ fault, t.walk here parts = .error fault := by
  induction parts generalizing here with
  | nil =>
    simp only [walk, find?_erase t hl]
    by_cases hhere : here = l
    · simp [hhere]
    · rcases t.find? here with _ | entry <;> simp [hhere]
  | cons part rest ih =>
    by_cases hhere : here = l
    · have hs : (t.erase l).step here part = .error .noSuchFile := by
        simp [step, find?_erase t hl, hhere]
      exact .inr (.inl (by rw [walk, hs]))
    · have hs : (t.erase l).step here part = t.step here part := by
        simp only [step, find?_erase t hl, hhere, if_false]
        rfl
      rw [walk, walk, hs]
      rcases t.step here part with fault | next
      · exact .inr (.inr ⟨rfl, fault, rfl⟩)
      · exact ih next

/-! ## Writing and removing -/

variable {path : Path} {name content : String}

/-- Writing puts a file under the last name of the path and changes no other entry. -/
theorem write_ok (hname : Path.IsName name) (hsteps : path.steps = parts ++ [name])
    (hw : t.write here path content = .ok t') :
    ∃ m isSealed executable, t.walk here parts = .ok (m, .folder isSealed) ∧
      t.barred (m ++ [name]) = none ∧ (∀ s, t.find? (m ++ [name]) ≠ some (.folder s)) ∧
      t' = t.put (m ++ [name]) (.file content executable) := by
  rw [write, hsteps] at hw
  rcases hwalk : t.walk here (parts ++ [name]) with fault | ⟨l, _ | _⟩
  · rw [hwalk] at hw
    obtain ⟨slot, hslot, hput⟩ := bind_eq_ok.mp hw
    cases hput
    rw [Tree.slot, List.dropLast_concat, List.getLast?_concat] at hslot
    rcases hm : t.walk here parts with _ | ⟨m, _ | isSealed⟩
    · rw [hm] at hslot; cases hslot
    · rw [hm] at hslot; cases hslot
    · cases isSealed with
      | true => rw [hm] at hslot; cases hslot
      | false =>
        have hstep : t.step m name = .ok slot := by
          simp only [hm] at hslot
          split at hslot <;> simp_all [hname.notHere, hname.notOuter]
        obtain ⟨-, -, hfree, hl⟩ := step_eq_ok.mp hstep
        rw [hname.follow] at hfree hl
        refine ⟨m, false, false, rfl, hfree, ?_, by rw [hl]⟩
        -- Something under the name would have been found by the walk.
        intro s hs
        have hfound : t.walk here (parts ++ [name]) = .ok (m ++ [name], .folder s) :=
          walk_concat_iff.mpr ⟨m, false, hm, by rwa [hname.follow], (hname.follow m).symm, hs⟩
        rw [hwalk] at hfound
        cases hfound
  · rw [hwalk] at hw
    cases hw
    obtain ⟨m, s, hm, hfree, hl, hfile⟩ := walk_concat_iff.mp hwalk
    rw [hname.follow] at hl hfree
    subst hl
    exact ⟨m, s, _, hm, hfree, by simp [hfile], rfl⟩
  · rw [hwalk] at hw
    cases hw

/-- A tree without one of its files keeps its folders. -/
theorem walk_folder_erase {executable isSealed : Bool} {m : Location}
    (hfile : t.find? l = some (.file content executable))
    (h : t.walk here parts = .ok (m, .folder isSealed)) :
    (t.erase l).walk here parts = .ok (m, .folder isSealed) := by
  have hl : l ≠ [] := by rintro rfl; cases hfile
  have hkept (m : Location) (s : Bool) (hm : t.find? m = some (.folder s)) :
      (t.erase l).find? m = some (.folder s) := by
    have hne : m ≠ l := by rintro rfl; rw [hfile] at hm; cases hm
    rw [find?_erase t hl, if_neg hne, hm]
  have hbarred : (t.erase l).barred = t.barred := rfl
  exact walk_mono hbarred hkept (hkept m isSealed (find?_of_walk h)) h

end Tree

/-! ## The path of a name in a folder -/

namespace Path

variable {folder name : String}

/-- A folder that stands around something has a shorter path. -/
theorem isTooLong_joinText (h : isTooLong folder = true) : isTooLong (joinText folder name) = true := by
  have hsize : folder.utf8ByteSize ≤ (joinText folder name).utf8ByteSize := by
    unfold joinText
    split <;> simp only [String.utf8ByteSize_append] <;> omega
  unfold isTooLong at h ⊢
  rw [decide_eq_true_eq] at h ⊢
  omega

/-- A path that ends in a slash has parts before it. -/
theorem parts_ne_nil_of_asFolder {text : String} (h : (ofText text).asFolder = true) :
    (ofText text).parts ≠ [] := by
  simp only [ofText, Bool.and_eq_true, List.any_eq_true] at h
  obtain ⟨-, piece, hpiece, hne⟩ := h
  exact List.ne_nil_of_mem (List.mem_filter.mpr ⟨hpiece, hne⟩)

end Path

namespace Host

variable {h h' : Host} {folder name content text path : String} {l m : Location} {e : Entry}

/-- What stands at a path is found by a walk, unless the path is empty or too long. -/
theorem find_eq_ok : h.find path = .ok (l, e) ↔ (Path.ofText path).isEmpty = false ∧
    Path.isTooLong path = false ∧
    h.tree.walk (h.start (Path.ofText path)) (Path.ofText path).steps = .ok (l, e) := by
  unfold find
  by_cases hempty : (Path.ofText path).isEmpty = true
  · simp [hempty]
  by_cases hlong : Path.isTooLong path = true
  · simp [hempty, hlong]
  · simp [hempty, hlong]

/-- A folder is found where its parts lead; a slash behind them does not matter. -/
theorem find_folder_iff {isSealed : Bool} (hfolder : folder ≠ "") :
    h.find folder = .ok (l, .folder isSealed) ↔ Path.isTooLong folder = false ∧
      h.tree.walk (h.start (Path.ofText folder)) (Path.ofText folder).parts =
        .ok (l, .folder isSealed) := by
  have hempty : (Path.ofText folder).isEmpty = false := by
    rw [← Bool.not_eq_true, Path.isEmpty_ofText]
    exact hfolder
  rw [find_eq_ok, and_iff_right hempty, Path.steps]
  refine and_congr_right fun _ => ?_
  by_cases hslash : (Path.ofText folder).asFolder = true
  · simp only [hslash, if_true]
    rw [Tree.walk_concat_iff]
    constructor
    · rintro ⟨m, s, hm, -, rfl, hl⟩
      rw [Tree.find?_of_walk hm] at hl
      cases hl
      exact hm
    · intro hl
      have hfree := Tree.barred_of_walk (Path.parts_ne_nil_of_asFolder hslash) hl
      exact ⟨l, isSealed, hl, hfree, rfl, Tree.find?_of_walk hl⟩
  · simp only [hslash, Bool.false_eq_true, if_false]

/-- Where the path of a name leads: to the folder and then to the name. -/
theorem find_joinText_iff (hname : Path.IsName name) (hfolder : folder ≠ "") :
    h.find (Path.joinText folder name) = .ok (l, e) ↔
      Path.isTooLong (Path.joinText folder name) = false ∧
      ∃ m isSealed, h.find folder = .ok (m, .folder isSealed) ∧
        h.tree.barred (m ++ [name]) = none ∧ l = m ++ [name] ∧ h.tree.find? l = some e := by
  have hempty : (Path.ofText (Path.joinText folder name)).isEmpty = false := by
    rw [← Bool.not_eq_true, Path.isEmpty_ofText]
    exact Path.joinText_ne_empty hname.notEmpty
  rw [find_eq_ok, and_iff_right hempty, Path.ofText_joinText hname hfolder]
  refine and_congr_right fun hshort => ?_
  have hfits : Path.isTooLong folder = false := by
    rw [← Bool.not_eq_true]
    intro hlong
    rw [Path.isTooLong_joinText hlong] at hshort
    cases hshort
  simp only [Path.steps, Bool.false_eq_true, if_false, Tree.walk_concat_iff, hname.follow,
    find_folder_iff hfolder, hfits, true_and]
  rfl

/-- A file that was written is found at its path, no other entry has changed, and its folder is
    there. -/
theorem find_of_write (hname : Path.IsName name) (hfolder : folder ≠ "")
    (hw : h.write (Path.joinText folder name) content = .ok h') :
    (∃ l executable, l ≠ [] ∧ h'.tree = h.tree.put l (.file content executable) ∧
      h'.find (Path.joinText folder name) = .ok (l, .file content executable)) ∧
      h'.isFolder folder = true := by
  obtain ⟨hlong, hw⟩ := refuse_eq_ok.mp hw
  have hshort : Path.isTooLong (Path.joinText folder name) = false := by simpa using hlong
  have hfits : Path.isTooLong folder = false := by
    rw [← Bool.not_eq_true]
    exact fun hfolder => hlong (Path.isTooLong_joinText hfolder)
  obtain ⟨tree, hwrite, hh⟩ := bind_eq_ok.mp hw
  cases hh
  rw [Path.ofText_joinText hname hfolder] at hwrite
  obtain ⟨m, s, x, hm, hbar, hfree, rfl⟩ := Tree.write_ok hname rfl hwrite
  have hne : m ++ [name] ≠ [] := by simp
  have hkept (l : Location) (s : Bool) (hl : h.tree.find? l = some (.folder s)) :
      (h.tree.put (m ++ [name]) (.file content x)).find? l = some (.folder s) := by
    have : l ≠ m ++ [name] := by rintro rfl; exact hfree s hl
    rw [Tree.find?_put _ hne, if_neg this, hl]
  let h' : Host := { h with tree := h.tree.put (m ++ [name]) (.file content x) }
  have hbarred : h'.tree.barred = h.tree.barred := rfl
  have hfind : h'.find folder = .ok (m, .folder s) :=
    (find_folder_iff hfolder).mpr
      ⟨hfits, Tree.walk_mono hbarred hkept (hkept m s (Tree.find?_of_walk hm)) hm⟩
  have hfile : h'.find (Path.joinText folder name) = .ok (m ++ [name], .file content x) := by
    refine (find_joinText_iff hname hfolder).mpr ⟨hshort, m, s, hfind, hbar, rfl, ?_⟩
    rw [Tree.find?_put _ hne, if_pos rfl]
  exact ⟨⟨_, _, hne, rfl, hfile⟩, by rw [isFolder, hfind]⟩

/-! ## Removing -/

/-- Removing goes by what stands at the path. -/
theorem remove_eq (hpath : path ≠ "") :
    h.remove path =
      match h.find path with
      | .ok (l, .file ..) => .ok { h with tree := h.tree.erase l }
      | .ok (l, .folder _) =>
        if h.tree.hasChildren l then .error .notEmpty
        else .ok { h with tree := h.tree.erase l }
      | .error .noSuchFile => .ok h
      | .error fault => .error fault := by
  have hempty : (Path.ofText path).isEmpty = false := by
    rw [← Bool.not_eq_true, Path.isEmpty_ofText]
    exact hpath
  by_cases hlong : Path.isTooLong path = true
  · simp [remove, find, hempty, hlong]
  have hfind : h.find path = h.tree.walk (h.start (Path.ofText path)) (Path.ofText path).steps := by
    simp [find, hempty, hlong]
  rw [hfind, remove, if_neg hlong]
  simp only [Tree.remove]
  rcases h.tree.walk (h.start (Path.ofText path)) (Path.ofText path).steps with fault | ⟨l, _ | _⟩
  · cases fault <;> rfl
  · rfl
  · by_cases hc : h.tree.hasChildren l = true
    · simp only [hc, if_true]; rfl
    · simp only [hc]; rfl

/-- Removing takes away what stands under the name, if anything does, and no other entry. -/
theorem remove_ok (hname : Path.IsName name) (hfolder : folder ≠ "")
    (hr : h.remove (Path.joinText folder name) = .ok h') :
    (h.find (Path.joinText folder name) = .error .noSuchFile ∧ h' = h) ∨
      ∃ l e, l ≠ [] ∧ h.find (Path.joinText folder name) = .ok (l, e) ∧
        h' = { h with tree := h.tree.erase l } := by
  rw [remove_eq (Path.joinText_ne_empty hname.notEmpty)] at hr
  have hslot {l : Location} {e : Entry} (hf : h.find (Path.joinText folder name) = .ok (l, e)) :
      l ≠ [] := by
    obtain ⟨-, m, s, -, -, rfl, -⟩ := (find_joinText_iff hname hfolder).mp hf
    simp
  rcases hf : h.find (Path.joinText folder name) with fault | ⟨l, _ | _⟩
  · rw [hf] at hr
    cases fault <;> cases hr
    exact .inl ⟨rfl, rfl⟩
  · rw [hf] at hr
    cases hr
    exact .inr ⟨l, _, hslot hf, rfl, rfl⟩
  · rw [hf] at hr
    cases (refuse_eq_ok.mp hr).2
    exact .inr ⟨l, _, hslot hf, rfl, rfl⟩

/-- With an entry less a path leads where it led, or nowhere, or the machine says of it what it said. -/
theorem find_erase (h : Host) (hl : l ≠ []) (text : String) :
    (∃ m e, m ≠ l ∧ h.find text = .ok (m, e) ∧
        ({ h with tree := h.tree.erase l } : Host).find text = .ok (m, e)) ∨
      ({ h with tree := h.tree.erase l } : Host).find text = .error .noSuchFile ∨
      ({ h with tree := h.tree.erase l } : Host).find text = h.find text ∧
        ∃ fault, h.find text = .error fault := by
  unfold find
  by_cases hempty : (Path.ofText text).isEmpty = true
  · simp [hempty]
  by_cases hlong : Path.isTooLong text = true
  · simp [hempty, hlong]
  simp only [hempty, hlong, Bool.false_eq_true, if_false]
  exact h.tree.walk_erase hl _ _

/-- Nothing stands at a path. -/
def IsAbsent (h : Host) (path : String) : Prop := h.pathExists path = .ok false

theorem isAbsent_iff :
    h.IsAbsent path ↔ ∃ fault, h.find path = .error fault ∧ fault.isAbsence = true := by
  unfold IsAbsent pathExists
  rcases h.find path with fault | ⟨l, e⟩
  · cases hf : fault.isAbsence <;> simp [hf]
  · simp

/-- What was absent stays so when something is erased. -/
theorem IsAbsent.erase (hp : h.IsAbsent path) (hl : l ≠ []) :
    ({ h with tree := h.tree.erase l } : Host).IsAbsent path := by
  obtain ⟨fault, hfind, hfault⟩ := isAbsent_iff.mp hp
  rcases h.find_erase hl path with ⟨m, e, -, hm, -⟩ | hnone | ⟨hsame, -⟩
  · rw [hfind] at hm
    cases hm
  · exact isAbsent_iff.mpr ⟨_, hnone, rfl⟩
  · exact isAbsent_iff.mpr ⟨fault, hsame.trans hfind, hfault⟩

/-- What was removed is gone. -/
theorem isAbsent_of_remove (hname : Path.IsName name) (hfolder : folder ≠ "")
    (hr : h.remove (Path.joinText folder name) = .ok h') :
    h'.IsAbsent (Path.joinText folder name) := by
  rcases remove_ok hname hfolder hr with ⟨hnone, rfl⟩ | ⟨l, e, hl, hfind, rfl⟩
  · exact isAbsent_iff.mpr ⟨_, hnone, rfl⟩
  rcases h.find_erase hl (Path.joinText folder name) with ⟨m, e', hm, hsame, -⟩ | hnone |
    ⟨-, fault, hfault⟩
  · rw [hfind] at hsame
    cases hsame
    exact absurd rfl hm
  · exact isAbsent_iff.mpr ⟨_, hnone, rfl⟩
  · rw [hfind] at hfault
    cases hfault

/-- What was absent stays so when something else is removed. -/
theorem IsAbsent.of_remove (hp : h.IsAbsent path) (hname : Path.IsName name)
    (hfolder : folder ≠ "") (hr : h.remove (Path.joinText folder name) = .ok h') :
    h'.IsAbsent path := by
  rcases remove_ok hname hfolder hr with ⟨-, rfl⟩ | ⟨l, e, hl, -, rfl⟩
  · exact hp
  · exact hp.erase hl

/-- A file stands at a path, or nothing is found there. -/
def IsRemovable (h : Host) (path : String) : Prop :=
  (∃ l content executable, h.find path = .ok (l, .file content executable)) ∨
    h.find path = .error .noSuchFile

/-- What is removable can be removed, and a folder stays. -/
theorem IsRemovable.remove (hp : h.IsRemovable path) (hpath : path ≠ "") (hfolder : folder ≠ "")
    (hf : h.isFolder folder = true) : ∃ h', h.remove path = .ok h' ∧ h'.isFolder folder = true := by
  rw [remove_eq hpath]
  rcases hp with ⟨l, content, executable, hfind⟩ | hnone
  · refine ⟨{ h with tree := h.tree.erase l }, by rw [hfind], ?_⟩
    obtain ⟨m, s, hm⟩ : ∃ m s, h.find folder = .ok (m, .folder s) := by
      rw [isFolder] at hf
      rcases hfind : h.find folder with _ | ⟨m, _ | s⟩
      · rw [hfind] at hf; cases hf
      · rw [hfind] at hf; cases hf
      · exact ⟨m, s, rfl⟩
    obtain ⟨hfits, hwalk⟩ := (find_folder_iff hfolder).mp hm
    have hstands := Tree.find?_of_walk (find_eq_ok.mp hfind).2.2
    have hkept : ({ h with tree := h.tree.erase l } : Host).find folder = .ok (m, .folder s) :=
      (find_folder_iff hfolder).mpr ⟨hfits, Tree.walk_folder_erase hstands hwalk⟩
    rw [isFolder, hkept]
  · exact ⟨h, by rw [hnone], hf⟩

/-- What is removable stays so when something else is removed. -/
theorem IsRemovable.of_remove (hp : h.IsRemovable path) (hname : Path.IsName name)
    (hfolder : folder ≠ "") (hr : h.remove (Path.joinText folder name) = .ok h') :
    h'.IsRemovable path := by
  rcases remove_ok hname hfolder hr with ⟨-, rfl⟩ | ⟨l, e, hl, -, rfl⟩
  · exact hp
  rcases h.find_erase hl path with ⟨m, e', -, hm, hm'⟩ | hnone | ⟨hsame, fault, hfault⟩
  · rcases hp with ⟨l', content, executable, hfile⟩ | hnone
    · rw [hm] at hfile
      cases hfile
      exact .inl ⟨m, content, executable, hm'⟩
    · rw [hm] at hnone
      cases hnone
  · exact .inr hnone
  · rcases hp with ⟨l', content, executable, hfile⟩ | hnone
    · rw [hfault] at hfile
      cases hfile
    · exact .inr (hsame.trans hnone)

/-- A folder that is there does not have to be made. -/
theorem makeFolders_of_isFolder (hf : h.isFolder path = true) : h.makeFolders path = (h, none) := by
  rw [isFolder] at hf
  rcases hfind : h.find path with _ | ⟨l, _ | isSealed⟩
  · rw [hfind] at hf; cases hf
  · rw [hfind] at hf; cases hf
  · obtain ⟨hempty, hshort, hwalk⟩ := find_eq_ok.mp hfind
    unfold makeFolders Tree.makeFolders
    simp [hempty, hshort, hwalk]

end Host

end Montage
