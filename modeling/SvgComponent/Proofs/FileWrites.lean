import SvgComponent.Files.Tree
import Mathlib.Data.List.Infix

/-!
# Writing a file

Writing to a path puts the content into the file that the path leads to, over directories and links,
and leaves all other files as they were: no directory is made on the way, since all of them are there
already.

* `FileTree.LeadsTo`: all that lies on the way to a place is a directory.
* `FileTree.locate_leadsTo`: a path leads to a place only over directories.
* `FileTree.locate_of_ways`: what a path leads to depends on directories and links only.
* `FileTree.Wrote`, `FileTree.wrote_of_write`: what writing does.
-/

namespace SvgComponent.Files

/-! ## Entries -/

/-- Entries that a path leads over. -/
def Entry.isWay : Entry → Bool
  | .directory _ => true
  | .link _ => true
  | _ => false

theorem Entry.isDirectory_put (content : List Nat) (e : Entry) :
    (e.put content).isDirectory = e.isDirectory := by
  cases e <;> rfl

theorem Entry.output?_put {e : Entry} (h : e.isWay = false) (content : List Nat) :
    (e.put content).output? = some content := by
  cases e with
  | file => rfl
  | device => rfl
  | directory => cases h
  | link => cases h

namespace FileTree

/-! ## The way to a place -/

/-- There is a directory at a place. -/
def HasDirectory (t : FileTree) (place : Place) : Prop :=
  ∃ access, t.lookup? place = some (.directory access)

/-- All that lies on the way to a place is a directory. -/
def LeadsTo (t : FileTree) (place : Place) : Prop :=
  ∀ q, q <+: place → q ≠ place → t.HasDirectory q

theorem hasDirectory_of_isAnchor (t : FileTree) {place : Place} (h : isAnchor place = true) :
    t.HasDirectory place := by
  unfold HasDirectory lookup?
  split
  · rename_i places e hlisted
    have hdirectory := List.find?_some hlisted
    simp only [h, Bool.not_true, Bool.or_false, Bool.and_eq_true] at hdirectory
    cases e with
    | directory access => exact ⟨access, rfl⟩
    | file | device | link => cases hdirectory.2
  · simp only [h, Bool.true_or, if_true]
    exact ⟨_, rfl⟩

theorem leadsTo_of_isAnchor (t : FileTree) {place : Place} (h : isAnchor place = true) :
    t.LeadsTo place := by
  intro q hq hne
  apply hasDirectory_of_isAnchor
  simp only [isAnchor, Bool.or_eq_true, List.all_eq_true, beq_iff_eq] at h ⊢
  rcases h with h | rfl
  · exact .inl fun name hm => h name (hq.subset hm)
  · rcases List.prefix_cons_iff.1 hq with rfl | ⟨s, rfl, hs⟩
    · exact .inl (by simp)
    · exact absurd (by rw [List.prefix_nil.1 hs]; rfl) hne

theorem LeadsTo.child {t : FileTree} {place : Place} (h : t.LeadsTo place)
    (hd : t.HasDirectory place) (name : List Char) : t.LeadsTo (place ++ [name]) := by
  intro q hq hne
  have hplace : q <+: place := (List.prefix_concat_iff.1 hq).resolve_left hne
  by_cases he : q = place
  · rw [he]
    exact hd
  · exact h q hplace he

theorem LeadsTo.parent {t : FileTree} {place : Place} (h : t.LeadsTo place) :
    t.LeadsTo (parentPlace place) := by
  unfold parentPlace
  split
  · exact h
  split
  · rename_i habove
    refine leadsTo_of_isAnchor t ?_
    simp only [isAnchor, List.all_cons, habove, Bool.and_true, beq_self_eq_true, Bool.true_or]
  · intro q hq hne
    refine h q (hq.trans (List.dropLast_prefix place)) ?_
    rintro rfl
    have hle := hq.length_le
    rw [List.length_dropLast] at hle
    have hnil : q.length = 0 := by omega
    exact hne (by rw [List.length_eq_zero_iff.1 hnil]; rfl)

theorem LeadsTo.next {t : FileTree} {place : Place} (h : t.LeadsTo place) (hd : t.HasDirectory place)
    (name : List Char) : t.LeadsTo (nextPlace place name) := by
  unfold nextPlace
  split
  · exact h.parent
  · exact h.child hd name

/-- The names of a link start in a directory. -/
theorem leadsTo_start {t : FileTree} {place : Place} (h : t.LeadsTo place) (hd : t.HasDirectory place)
    (p : Path) : t.LeadsTo (p.start place) ∧ t.HasDirectory (p.start place) := by
  unfold Path.start
  split
  · exact ⟨h, hd⟩
  · exact ⟨leadsTo_of_isAnchor t (by decide), hasDirectory_of_isAnchor t (by decide)⟩

/-- The end of a path: a place behind directories, and what is there, which is no link. -/
structure IsGoal (t : FileTree) (goal : Goal) : Prop where
  entry : goal.2 = t.lookup? goal.1
  way : t.LeadsTo goal.1
  noLink : ∀ target, goal.2 ≠ some (.link target)

theorem isGoal_walkWith {t : FileTree} {follow : Place → List (List Char) → Except FileError Goal}
    (hfollow : ∀ {place names goal}, t.LeadsTo place → t.HasDirectory place →
      follow place names = .ok goal → t.IsGoal goal) :
    ∀ {names : List (List Char)} {place : Place} {goal : Goal}, t.LeadsTo place →
      (∀ target, t.lookup? place ≠ some (.link target)) →
      t.walkWith follow place names = .ok goal → t.IsGoal goal
  | [], place, goal, hl, hn, h => by
    cases h
    exact ⟨rfl, hl, hn⟩
  | name :: names, place, goal, hl, hn, h => by
    unfold walkWith at h
    split at h
    · cases h
    · rename_i access hplace
      have hd : t.HasDirectory place := ⟨access, hplace⟩
      split at h
      · cases h
      split at h
      · cases h
      split at h
      · rename_i target hlink
        obtain ⟨hstart, hdirectory⟩ := leadsTo_start hl hd target
        exact hfollow hstart hdirectory h
      · rename_i hnext
        exact isGoal_walkWith hfollow (hl.next hd name) hnext h
    · cases h

theorem isGoal_walk {t : FileTree} (links : Nat) {place : Place} {names : List (List Char)}
    {goal : Goal} (hl : t.LeadsTo place) (hd : t.HasDirectory place)
    (h : t.walk links place names = .ok goal) : t.IsGoal goal := by
  have hnoLink : ∀ {q}, t.HasDirectory q → ∀ target, t.lookup? q ≠ some (.link target) := by
    intro q hq target hlink
    obtain ⟨access, hq⟩ := hq
    rw [hq] at hlink
    cases hlink
  induction links generalizing place names goal with
  | zero =>
    refine isGoal_walkWith ?_ hl (hnoLink hd) h
    intro place names goal _ _ hnone
    cases hnone
  | succ links ih => exact isGoal_walkWith ih hl (hnoLink hd) h

/-- **A path leads to a place only over directories**, and to no link. -/
theorem locate_leadsTo {t : FileTree} {p : Path} {goal : Goal} (h : t.locate p = .ok goal) :
    t.IsGoal goal := by
  unfold locate at h
  split at h
  · cases h
  split at h
  · cases h
  obtain ⟨hl, hd⟩ := leadsTo_start (leadsTo_of_isAnchor t (by decide : isAnchor [] = true))
    (hasDirectory_of_isAnchor t (by decide)) p
  cases hw : t.walk maxLinks (p.start []) p.names with
  | error e =>
    rw [hw] at h
    cases h
  | ok found =>
    rw [hw] at h
    cases h
    exact isGoal_walk maxLinks hl hd hw

/-! ## Trees with the same directories and links -/

/-- Two trees have the same directories and links. -/
def SameWays (t t' : FileTree) : Prop :=
  ∀ q e, e.isWay = true → (t.lookup? q = some e ↔ t'.lookup? q = some e)

theorem walkWith_of_ways {t t' : FileTree} (hways : t.SameWays t')
    {follow follow' : Place → List (List Char) → Except FileError Goal}
    (hfollow : ∀ {place names place' entry}, follow place names = .ok (place', entry) →
      follow' place names = .ok (place', t'.lookup? place')) :
    ∀ {names : List (List Char)} {place place' : Place} {entry : Option Entry},
      t.walkWith follow place names = .ok (place', entry) →
      t'.walkWith follow' place names = .ok (place', t'.lookup? place')
  | [], place, place', entry, h => by
    cases h
    rfl
  | name :: names, place, place', entry, h => by
    unfold walkWith at h ⊢
    split at h
    · cases h
    · rename_i access hplace
      rw [(hways place (.directory access) rfl).1 hplace]
      dsimp only
      split at h
      · cases h
      rename_i hsearchable
      rw [if_neg hsearchable]
      split at h
      · cases h
      rename_i hlong
      rw [if_neg hlong]
      split at h
      · rename_i target hlink
        rw [(hways _ (.link target) rfl).1 hlink]
        exact hfollow h
      · rename_i hnone
        split
        · rename_i target hlink
          exact absurd ((hways _ (.link target) rfl).2 hlink) (hnone target)
        · exact walkWith_of_ways hways hfollow h
    · cases h

theorem walk_of_ways {t t' : FileTree} (hways : t.SameWays t') (links : Nat) {place place' : Place}
    {names : List (List Char)} {entry : Option Entry}
    (h : t.walk links place names = .ok (place', entry)) :
    t'.walk links place names = .ok (place', t'.lookup? place') := by
  induction links generalizing place names place' entry with
  | zero =>
    refine walkWith_of_ways hways ?_ h
    intro place names place' entry hnone
    cases hnone
  | succ links ih => exact walkWith_of_ways hways ih h

/-- **Where a path leads to depends on directories and links only.** -/
theorem locate_of_ways {t t' : FileTree} (hways : t.SameWays t') {p : Path} {place : Place}
    {entry : Option Entry} (h : t.locate p = .ok (place, entry)) :
    t'.locate p = .ok (place, t'.lookup? place) := by
  unfold locate at h ⊢
  split at h
  · cases h
  rename_i hnull
  rw [if_neg hnull]
  split at h
  · cases h
  rename_i hlong
  rw [if_neg hlong]
  cases hw : t.walk maxLinks (p.start []) p.names with
  | error e =>
    rw [hw] at h
    cases h
  | ok found =>
    rw [hw] at h
    cases h
    rw [walk_of_ways hways maxLinks hw]
    rfl

/-! ## The file that is written -/

/-- Two places of one file. -/
def SameFile (t : FileTree) (place q : Place) : Prop :=
  q = place ∨ ∃ e, t.listed? place = some e ∧ t.listed? q = some e

/-- What writing content to a path makes of a tree: the path still leads to the same place, the content
is there, at whatever other places the file has too, and every other file is as it was. -/
structure Wrote (t : FileTree) (p : Path) (content : List Nat) (place : Place) (t' : FileTree) :
    Prop where
  located : ∃ old, t.locate p = .ok (place, old)
  holds : ∃ new, t'.locate p = .ok (place, some new) ∧ new.output? = some content
  same : ∀ q, t.SameFile place q → t'.lookup? q = t'.lookup? place
  others : ∀ q, ¬ t.SameFile place q → t'.lookup? q = t.lookup? q

/-- New content in one file is written if all else is as before. -/
theorem Wrote.of_others {t t' : FileTree} {p : Path} {place : Place} {old : Option Entry} {new : Entry}
    {content : List Nat} (h : t.locate p = .ok (place, old)) (hnew : new.output? = some content)
    (hold : ∀ q, t.SameFile place q → t.lookup? q = old ∧ t'.lookup? q = some new)
    (hway : ∀ e, old = some e → e.isWay = false)
    (hothers : ∀ q, ¬ t.SameFile place q → t'.lookup? q = t.lookup? q) :
    t.Wrote p content place t' := by
  have hnoWay : new.isWay = false := by
    cases new with
    | file => rfl
    | device => rfl
    | directory => cases hnew
    | link => cases hnew
  have hplace : t'.lookup? place = some new := (hold place (.inl rfl)).2
  have hways : t.SameWays t' := by
    intro q e he
    by_cases hq : t.SameFile place q
    · obtain ⟨hbefore, hafter⟩ := hold q hq
      constructor
      · intro hqe
        have hnone := hway e (hbefore.symm.trans hqe)
        rw [he] at hnone
        cases hnone
      · intro hqe
        obtain rfl := Option.some.inj (hafter.symm.trans hqe)
        rw [he] at hnoWay
        cases hnoWay
    · rw [hothers q hq]
  have hlocate := locate_of_ways hways h
  rw [hplace] at hlocate
  exact ⟨⟨old, h⟩, ⟨new, hlocate, hnew⟩, fun q hq => (hold q hq).2.trans hplace.symm, hothers⟩

/-! ## Writing to a file that is there -/

theorem listed?_put (t : FileTree) (place : Place) (content : List Nat) (q : Place) :
    (t.put place content).listed? q =
      (t.listed? q).map fun e => if t.listed? place = some e then (e.1, e.2.put content) else e := by
  unfold put
  generalize hlisted : t.listed? place = target
  unfold listed?
  rw [List.find?_map]
  congr 2
  funext e
  simp only [Function.comp_apply]
  split
  · rw [Entry.isDirectory_put]
  · rfl

theorem isOnTheWay_put (t : FileTree) (place : Place) (content : List Nat) (q : Place) :
    (t.put place content).isOnTheWay q = t.isOnTheWay q := by
  unfold isOnTheWay put
  rw [List.any_map]
  congr 1
  funext e
  simp only [Function.comp_apply]
  split <;> rfl

/-- Content in a file that had other content. -/
theorem lookup?_put {t : FileTree} {place : Place} {e : List Place × Entry}
    (h : t.listed? place = some e) (content : List Nat) (q : Place) :
    (t.put place content).lookup? q =
      if t.listed? q = some e then some (e.2.put content) else t.lookup? q := by
  unfold lookup?
  rw [listed?_put, isOnTheWay_put, h]
  cases hq : t.listed? q with
  | none => simp
  | some e' =>
    by_cases he : e = e'
    · subst he
      simp
    · have hne : ¬ e' = e := fun heq => he heq.symm
      simp [he, hne]

/-! ## Writing a new file -/

theorem lookup?_eq_none {t : FileTree} {place : Place} (h : t.lookup? place = none) :
    t.listed? place = none ∧ isAnchor place = false ∧ t.isOnTheWay place = false := by
  unfold lookup? at h
  split at h
  · cases h
  · rename_i hlisted
    split at h
    · cases h
    · rename_i hnone
      simpa [hlisted] using hnone

/-- Content at a place that had nothing, behind directories. -/
theorem lookup?_add {t : FileTree} {place : Place} (h : t.lookup? place = none) (hl : t.LeadsTo place)
    (content : List Nat) (q : Place) :
    (t.add place content).lookup? q = if q = place then some (.file content) else t.lookup? q := by
  obtain ⟨hlisted, hanchor, -⟩ := lookup?_eq_none h
  by_cases hq : q = place
  · subst hq
    have hnew : (t.add q content).listed? q = some ([q], .file content) := by
      unfold listed? add at *
      rw [List.find?_append, hlisted]
      simp [hanchor]
    rw [if_pos rfl, lookup?, hnew]
  · have hold : (t.add place content).listed? q = t.listed? q := by
      unfold listed? add
      rw [List.find?_append]
      simp [hq]
    have hways : (t.add place content).isOnTheWay q = (t.isOnTheWay q || q.isPrefixOf place) := by
      unfold isOnTheWay add
      rw [List.any_append]
      simp
    rw [if_neg hq, lookup?, lookup?, hold, hways]
    cases hfound : t.listed? q with
    | some e => rfl
    | none =>
      by_cases hbefore : q <+: place
      · -- what lies on the way was a directory before
        obtain ⟨access, hdirectory⟩ := hl q hbefore hq
        rw [lookup?, hfound] at hdirectory
        simp only at hdirectory ⊢
        split at hdirectory
        · rename_i hway
          rw [if_pos hway, ← Bool.or_assoc, hway, Bool.true_or, if_pos rfl]
        · cases hdirectory
      · have hnone : q.isPrefixOf place = false := by
          rw [← Bool.not_eq_true]
          simpa using hbefore
        rw [hnone, Bool.or_false]

/-! ## Writing -/

theorem sameFile_of_lookup?_eq_none {t : FileTree} {place q : Place} (h : t.lookup? place = none) :
    t.SameFile place q ↔ q = place := by
  constructor
  · rintro (hq | ⟨e, he, -⟩)
    · exact hq
    · rw [(lookup?_eq_none h).1] at he
      cases he
  · exact .inl

theorem exists_listed {t : FileTree} {place : Place} {e : Entry} (h : t.lookup? place = some e)
    (hd : e.isDirectory = false) : ∃ places, t.listed? place = some (places, e) := by
  unfold lookup? at h
  split at h
  · rename_i places e' hlisted
    obtain rfl := Option.some.inj h
    exact ⟨places, hlisted⟩
  · split at h
    · obtain rfl := Option.some.inj h
      cases hd
    · cases h

theorem wrote_add {t : FileTree} {p : Path} {place : Place} (h : t.locate p = .ok (place, none))
    (content : List Nat) : t.Wrote p content place (t.add place content) := by
  obtain ⟨hentry, hway, -⟩ := locate_leadsTo h
  have hsame : ∀ q, t.SameFile place q ↔ q = place :=
    fun q => sameFile_of_lookup?_eq_none hentry.symm
  have hadd := lookup?_add hentry.symm hway content
  have hnew : (Entry.file content).output? = some content := rfl
  refine .of_others h hnew (fun q hq => ?_) (fun e he => (nomatch he)) fun q hq => ?_
  · rw [hsame] at hq
    rw [hadd, if_pos hq, hq]
    exact ⟨hentry.symm, rfl⟩
  · rw [hsame] at hq
    rw [hadd, if_neg hq]

theorem wrote_put {t : FileTree} {p : Path} {place : Place} {entry : Entry}
    (h : t.locate p = .ok (place, some entry)) (hd : entry.isDirectory = false) (content : List Nat) :
    t.Wrote p content place (t.put place content) := by
  obtain ⟨hentry, -, hlink⟩ := locate_leadsTo h
  have hnoWay : entry.isWay = false := by
    cases entry with
    | file => rfl
    | device => rfl
    | directory => cases hd
    | link target => exact absurd rfl (hlink target)
  obtain ⟨places, hlisted⟩ := exists_listed hentry.symm hd
  have hput := lookup?_put hlisted content
  have hsame : ∀ q, t.SameFile place q ↔ t.listed? q = some (places, entry) := by
    intro q
    constructor
    · rintro (rfl | ⟨e, he, hq⟩)
      · exact hlisted
      · rw [hq, ← he, hlisted]
    · intro hq
      exact .inr ⟨_, hlisted, hq⟩
  refine .of_others h (Entry.output?_put hnoWay content) (fun q hq => ?_) ?_ fun q hq => ?_
  · rw [hsame] at hq
    rw [hput, if_pos hq, lookup?, hq]
    exact ⟨rfl, rfl⟩
  · intro e he
    obtain rfl := Option.some.inj he
    exact hnoWay
  · rw [hsame] at hq
    rw [hput, if_neg hq]

/-- **Writing changes one file.** -/
theorem wrote_of_write {t t' : FileTree} {p : Path} {content : List Nat}
    (h : t.write p content = .ok t') : ∃ place, t.Wrote p content place t' := by
  unfold write at h
  cases hlocate : t.locate p with
  | error e =>
    rw [hlocate] at h
    cases h
  | ok goal =>
    obtain ⟨place, entry⟩ := goal
    rw [hlocate] at h
    refine ⟨place, ?_⟩
    cases entry with
    | none =>
      change (if t.mayAdd place then Except.ok (t.add place content) else _) = _ at h
      split at h
      · cases h
        exact wrote_add hlocate content
      · cases h
    | some entry =>
      change (if entry.isDirectory then _ else if !entry.access.writable then _ else
        Except.ok (t.put place content)) = _ at h
      split at h
      · cases h
      rename_i hdirectory
      split at h
      · cases h
      cases h
      exact wrote_put hlocate (Bool.eq_false_iff.2 hdirectory) content

end FileTree
end SvgComponent.Files
