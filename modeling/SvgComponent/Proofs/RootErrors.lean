import SvgComponent.Proofs.VoidElements

/-!
# Which texts have no tree

A text has no tree if no start tag of a root is complete in it, or if its root is never closed. Both are
said of the lexemes alone here. A start tag, and the element it opens, is named by the place of the lexeme
that completes it.

* `Completes`, `RootAt`: where start tags are complete, and where the root's is.
* `OpenAt`: which elements are open behind a number of lexemes. It tells of each element by itself how
  long it is open, and keeps no list of them.
* `NeverClosed`: no close tag of the root's name stands where the root is the only open element of that
  name.
* `Charts`: the tags of the open elements in a list. One lexeme changes it as it changes the tree under
  construction (`Charts.next`).
* `parse_error_iff`: when a text has no tree, and why.
-/

namespace SvgComponent.Markup

/-! ## Start tags and open elements, by their places -/

section
variable (ls : List Lexeme)

/-- A start tag of this name begins before `n`, and only attributes of it stand between. -/
def Begun (tag : List Char) (n : Nat) : Prop :=
  ∃ k < n, ls[k]? = some (.openTag tag) ∧
    ∀ j, k < j → j < n → ∃ name value, ls[j]? = some (.attribute name value)

/-- A start tag of this name is complete with the lexeme at `i`. -/
def Completes (tag : List Char) (i : Nat) : Prop :=
  Begun ls tag i ∧ (ls[i]? = some .tagEnd ∨ ls[i]? = some .selfClose)

/-- The first complete start tag of a root is complete at `i`. -/
def RootAt (i : Nat) : Prop := Completes ls rootTag i ∧ ∀ j < i, ¬Completes ls rootTag j

/-- The lexeme at `i` opens an element: its start tag does not close itself, and it is not void. -/
def Opens (tag : List Char) (i : Nat) : Prop :=
  Begun ls tag i ∧ ls[i]? = some .tagEnd ∧ isVoid tag = false

/-- A close tag closes the element at `i`: it has the tag of that element or of an open one around it, and
no open element inside has this tag. -/
def Closes (isOpen : List Char → Nat → Prop) (name tag : List Char) (i : Nat) : Prop :=
  (name = tag ∨ ∃ k < i, isOpen name k) ∧ ∀ k, i < k → ¬isOpen name k

/-- The element with this tag that is opened at `i`, inside the root or the root itself, is open when `n`
lexemes have been read: none of them has closed it. What is opened before the root is dropped. -/
def OpenAt (root : Nat) : Nat → List Char → Nat → Prop
  | 0, _, _ => False
  | n + 1, tag, i =>
    i = n ∧ root ≤ n ∧ Opens ls tag n ∨
      OpenAt root n tag i ∧
        ∀ name, ls[n]? = some (.closeTag name) → ¬Closes (OpenAt root n) name tag i

/-- The root is the only element of its name that is open when `n` lexemes have been read. -/
def OnlyRootAt (root n : Nat) : Prop := ∀ i, OpenAt ls root n rootTag i ↔ i = root

/-- The root has a start tag that does not close itself, and no close tag behind it closes it. -/
def NeverClosed : Prop :=
  ∃ root, RootAt ls root ∧ ls[root]? = some .tagEnd ∧
    ∀ n, root < n → ls[n]? = some (.closeTag rootTag) → ¬OnlyRootAt ls root n

end

section
variable {ls : List Lexeme} {n : Nat} {tag : List Char}

/-! ## The start tag being read -/

theorem not_begun_zero : ¬Begun ls tag 0 := by
  rintro ⟨k, hk, -⟩
  omega

theorem begun_succ : Begun ls tag (n + 1) ↔
    ls[n]? = some (.openTag tag) ∨
      (∃ name value, ls[n]? = some (.attribute name value)) ∧ Begun ls tag n := by
  constructor
  · rintro ⟨k, hk, hopen, hbetween⟩
    rcases Nat.lt_succ_iff_lt_or_eq.1 hk with hk | rfl
    · exact .inr ⟨hbetween n hk (by omega), k, hk, hopen, fun j hj hjn => hbetween j hj (by omega)⟩
    · exact .inl hopen
  · rintro (hopen | ⟨hn, k, hk, hopen, hbetween⟩)
    · exact ⟨n, by omega, hopen, fun j hj hjn => by omega⟩
    · refine ⟨k, by omega, hopen, fun j hj hjn => ?_⟩
      rcases Nat.lt_succ_iff_lt_or_eq.1 hjn with hjn | rfl
      · exact hbetween j hj hjn
      · exact hn

theorem begun_unique {tag' : List Char} (h : Begun ls tag n) (h' : Begun ls tag' n) : tag = tag' := by
  induction n with
  | zero => exact absurd h not_begun_zero
  | succ n ih =>
    rw [begun_succ] at h h'
    rcases h with h | ⟨⟨_, _, h⟩, hb⟩ <;> rcases h' with h' | ⟨⟨_, _, h'⟩, hb'⟩
    · rw [h] at h'
      cases h'
      rfl
    · rw [h] at h'
      cases h'
    · rw [h] at h'
      cases h'
    · exact ih hb hb'

/-- The start tag that is pending in the builder is the one that has begun before `n`. -/
structure Pends (ls : List Lexeme) (n : Nat) (mode : Mode) (b : Builder) : Prop where
  begun : ∀ tag, Begun ls tag n ↔ b.pending.map Element.tag = some tag
  content : mode = .content → b.pending = none

/-- Behind the end of a start tag none is pending. -/
theorem pending_feed_end {b b' : Builder} {l : Lexeme} (hl : l = .tagEnd ∨ l = .selfClose)
    (h : b.feed l = .more b') : b'.pending = none := by
  cases hp : b.pending with
  | none =>
    have hfeed : b.feed l = .more b := by
      rcases hl with rfl | rfl <;> simp only [Builder.feed, hp]
    rw [hfeed] at h
    cases h
    exact hp
  | some e =>
    obtain ⟨leavesOpen, hfeed⟩ : ∃ leavesOpen, b.feed l = b.start e leavesOpen := by
      rcases hl with rfl | rfl
      · exact ⟨!isVoid e.tag, by simp only [Builder.feed, hp]⟩
      · exact ⟨false, by simp only [Builder.feed, hp]⟩
    exact Builder.pending_start (hfeed.symm.trans h)

/-- A lexeme that is neither the name nor an attribute of a start tag leaves none begun. -/
theorem Pends.of_none {mode : Mode} {l : Lexeme} (hn : ls[n]? = some l)
    (hopen : ∀ name, l ≠ .openTag name) (hattribute : ∀ name value, l ≠ .attribute name value)
    {b : Builder} (hb : b.pending = none) : Pends ls (n + 1) mode b := by
  refine ⟨fun tag => ?_, fun _ => hb⟩
  rw [begun_succ, hn, hb]
  simp [hopen, hattribute]

/-- **One lexeme.** -/
theorem Pends.feed {mode mode' : Mode} {b b' : Builder} {l : Lexeme} (h : Pends ls n mode b)
    (hn : ls[n]? = some l) (hl : l.Leads mode mode') (hf : b.feed l = .more b') :
    Pends ls (n + 1) mode' b' := by
  have hkept : mode = .content → l.isTagEdge = false → b'.pending = none := by
    intro hmode hedge
    have hsame := pending_feed hedge hf
    rw [h.content hmode, Option.map_none, Option.map_eq_none_iff] at hsame
    exact hsame
  cases hl with
  | text => exact .of_none hn (by simp) (by simp) (hkept rfl rfl)
  | comment => exact .of_none hn (by simp) (by simp) (hkept rfl rfl)
  | cdata => exact .of_none hn (by simp) (by simp) (hkept rfl rfl)
  | closeTag => exact .of_none hn (by simp) (by simp) (hkept rfl rfl)
  | tagEnd => exact .of_none hn (by simp) (by simp) (pending_feed_end (.inl rfl) hf)
  | selfClose => exact .of_none hn (by simp) (by simp) (pending_feed_end (.inr rfl) hf)
  | openTag =>
    cases hf
    refine ⟨fun tag => ?_, by simp⟩
    rw [begun_succ, hn]
    simp
  | «attribute» =>
    refine ⟨fun tag => ?_, by simp⟩
    rw [begun_succ, hn, pending_feed rfl hf, ← h.begun]
    simp

/-! ## The open elements -/

variable {root i : Nat}

theorem OpenAt.bounds (h : OpenAt ls root n tag i) : root ≤ i ∧ i < n := by
  induction n with
  | zero => exact h.elim
  | succ n ih =>
    rcases h with ⟨rfl, hroot, -⟩ | ⟨hopen, -⟩
    · exact ⟨hroot, by omega⟩
    · have hbounds := ih hopen
      omega

theorem OpenAt.begun (h : OpenAt ls root n tag i) : Begun ls tag i := by
  induction n with
  | zero => exact h.elim
  | succ n ih =>
    rcases h with ⟨rfl, -, hopens⟩ | ⟨hopen, -⟩
    · exact hopens.1
    · exact ih hopen

/-- `tags` are those of the open elements, innermost first: the elements can be listed by falling
places. -/
def Charts (ls : List Lexeme) (root n : Nat) (tags : List (List Char)) : Prop :=
  ∃ stack : List (List Char × Nat), stack.map Prod.fst = tags ∧
    stack.Pairwise (fun a b => b.2 < a.2) ∧ ∀ tag i, OpenAt ls root n tag i ↔ (tag, i) ∈ stack

/-- Nothing is open if the list is empty. -/
theorem Charts.eq_nil_iff {tags : List (List Char)} (h : Charts ls root n tags) :
    tags = [] ↔ ∀ tag i, ¬OpenAt ls root n tag i := by
  obtain ⟨stack, rfl, -, hmem⟩ := h
  simp [hmem, List.eq_nil_iff_forall_not_mem]

theorem not_closes_of_not_mem {stack : List (List Char × Nat)} {name : List Char}
    (hname : name ∉ stack.map Prod.fst) {x : List Char × Nat} (hx : x ∈ stack) :
    ¬Closes (fun tag i => (tag, i) ∈ stack) name x.1 x.2 := by
  rintro ⟨rfl | ⟨k, -, hk⟩, -⟩
  · exact hname (List.mem_map_of_mem hx)
  · exact hname (List.mem_map_of_mem hk)

/-- **What a close tag leaves open.** In a list of elements by falling places, the first of that name goes
with all before it. -/
theorem mem_tail_dropWhile {stack : List (List Char × Nat)}
    (hs : stack.Pairwise (fun a b => b.2 < a.2)) {name : List Char}
    (hname : name ∈ stack.map Prod.fst) (x : List Char × Nat) :
    x ∈ (stack.dropWhile (·.1 ≠ name)).tail ↔
      x ∈ stack ∧ ¬Closes (fun tag i => (tag, i) ∈ stack) name x.1 x.2 := by
  induction stack with
  | nil => cases hname
  | cons e stack ih =>
    obtain ⟨tag, place⟩ := e
    rw [List.pairwise_cons] at hs
    have hinner : ∀ t k, (t, k) ∈ stack → k < place := fun t k hk => hs.1 (t, k) hk
    by_cases htag : tag = name
    · subst htag
      rw [List.dropWhile_cons_of_neg (by simp), List.tail_cons]
      constructor
      · intro hx
        refine ⟨List.mem_cons_of_mem _ hx, fun hc => ?_⟩
        exact hc.2 place (hs.1 x hx) List.mem_cons_self
      · rintro ⟨hx, hc⟩
        refine (List.mem_cons.1 hx).resolve_left ?_
        rintro rfl
        refine hc ⟨.inl rfl, fun k hk hmem => ?_⟩
        rcases List.mem_cons.1 hmem with heq | hmem
        · cases heq
          omega
        · have := hinner _ _ hmem
          omega
    · have hrest : name ∈ stack.map Prod.fst := by
        simpa [Ne.symm htag] using hname
      -- the elements of that name are those behind the first element
      have hsame : ∀ k, (name, k) ∈ (tag, place) :: stack ↔ (name, k) ∈ stack := by
        intro k
        simp [Ne.symm htag]
      have hcloses : ∀ t k, Closes (fun t k => (t, k) ∈ (tag, place) :: stack) name t k ↔
          Closes (fun t k => (t, k) ∈ stack) name t k := by
        intro t k
        simp only [Closes, hsame]
      rw [List.dropWhile_cons_of_pos (by simpa using htag), ih hs.2 hrest, hcloses]
      constructor
      · rintro ⟨hx, hc⟩
        exact ⟨List.mem_cons_of_mem _ hx, hc⟩
      · rintro ⟨hx, hc⟩
        refine ⟨(List.mem_cons.1 hx).resolve_left ?_, hc⟩
        rintro rfl
        obtain ⟨⟨_, k⟩, hk, rfl⟩ := List.mem_map.1 hrest
        refine hc ⟨.inr ⟨k, hinner _ _ hk, hk⟩, fun j hj hmem => ?_⟩
        have := hinner _ _ hmem
        omega

/-- **One lexeme** changes the list of open elements as the nesting says. -/
theorem Charts.next {nesting : Nesting} {l : Lexeme} (h : Charts ls root n nesting.opened)
    (hn : ls[n]? = some l) (hroot : root ≤ n)
    (hbegun : l = .tagEnd → ∀ tag, Begun ls tag n ↔ tag = nesting.current) :
    Charts ls root (n + 1) (nesting.next l).opened := by
  obtain ⟨stack, htags, hs, hmem⟩ := h
  have hopen : OpenAt ls root n = fun tag i => (tag, i) ∈ stack := by
    funext tag i
    exact propext (hmem tag i)
  have hother : l ≠ .tagEnd → (∀ name, l ≠ .closeTag name) →
      ∀ tag i, OpenAt ls root (n + 1) tag i ↔ (tag, i) ∈ stack := by
    intro hend hclose tag i
    simp [OpenAt, Opens, hn, hend, hclose, hmem]
  cases l with
  | tagEnd =>
    have hstep : ∀ tag i, OpenAt ls root (n + 1) tag i ↔
        (i = n ∧ tag = nesting.current ∧ isVoid tag = false) ∨ (tag, i) ∈ stack := by
      intro tag i
      simp [OpenAt, Opens, hn, hmem, hroot, hbegun rfl]
    simp only [Nesting.next]
    split
    · rename_i hv
      refine ⟨stack, htags, hs, fun tag i => ?_⟩
      rw [hstep]
      refine or_iff_right ?_
      rintro ⟨-, rfl, hv'⟩
      rw [hv] at hv'
      cases hv'
    · rename_i hv
      refine ⟨(nesting.current, n) :: stack, by simp [htags], ?_, fun tag i => ?_⟩
      · rw [List.pairwise_cons]
        exact ⟨fun e he => ((hmem e.1 e.2).2 he).bounds.2, hs⟩
      · rw [hstep, List.mem_cons, Prod.mk.injEq]
        refine or_congr_left ⟨?_, ?_⟩
        · rintro ⟨rfl, rfl, -⟩
          exact ⟨rfl, rfl⟩
        · rintro ⟨rfl, rfl⟩
          exact ⟨rfl, rfl, by simpa using hv⟩
  | closeTag name =>
    have hstep : ∀ tag i, OpenAt ls root (n + 1) tag i ↔
        (tag, i) ∈ stack ∧ ¬Closes (fun tag i => (tag, i) ∈ stack) name tag i := by
      intro tag i
      simp [OpenAt, Opens, hn, hopen]
    simp only [Nesting.next]
    split
    · rename_i hname
      rw [← htags] at hname
      refine ⟨(stack.dropWhile (·.1 ≠ name)).tail, ?_, ?_, fun tag i => ?_⟩
      · rw [← htags, List.map_tail, List.dropWhile_map]
        rfl
      · exact hs.sublist ((List.tail_sublist _).trans (List.dropWhile_sublist _))
      · rw [hstep]
        exact (mem_tail_dropWhile hs hname (tag, i)).symm
    · rename_i hname
      rw [← htags] at hname
      refine ⟨stack, htags, hs, fun tag i => ?_⟩
      rw [hstep]
      exact and_iff_left_of_imp (not_closes_of_not_mem hname)
  | openTag | «attribute» | selfClose | text | cdata | comment =>
    exact ⟨stack, htags, hs, hother (by simp) (by simp)⟩

/-! ## The root -/

/-- **What closes the root**: a close tag of its name, if no other element of that name is open. -/
theorem not_openAt_root_succ (h : OpenAt ls root n rootTag root) :
    ¬OpenAt ls root (n + 1) rootTag root ↔
      ls[n]? = some (.closeTag rootTag) ∧ OnlyRootAt ls root n := by
  constructor
  · intro hclosed
    simp only [OpenAt, not_or, not_and, not_forall, not_not] at hclosed
    obtain ⟨name, hn, hname, hinner⟩ := hclosed.2 h
    rcases hname with rfl | ⟨k, hk, hopen⟩
    · refine ⟨hn, fun i => ⟨fun hi => ?_, fun hi => hi ▸ h⟩⟩
      have hle := hi.bounds.1
      by_contra hne
      exact hinner i (by omega) hi
    · -- nothing is open around the root
      have hle := hopen.bounds.1
      omega
  · rintro ⟨hn, honly⟩ (⟨rfl, -⟩ | ⟨-, hclose⟩)
    · have hlt := h.bounds.2
      omega
    · refine hclose rootTag hn ⟨.inl rfl, fun k hk hopen => ?_⟩
      have heq := (honly k).1 hopen
      omega

/-- The close tag that closes the root closes all elements in it. -/
theorem OnlyRootAt.not_openAt_succ (h : OnlyRootAt ls root n)
    (hn : ls[n]? = some (.closeTag rootTag)) : ¬OpenAt ls root (n + 1) tag i := by
  have hroot := (h root).2 rfl
  rintro (⟨-, -, -, hend, -⟩ | ⟨hopen, hclose⟩)
  · rw [hn] at hend
    cases hend
  · have hle := hopen.bounds.1
    refine hclose rootTag hn ⟨?_, fun k hk hk' => ?_⟩
    · rcases Nat.eq_or_lt_of_le hle with rfl | hlt
      · exact .inl (begun_unique hroot.begun hopen.begun)
      · exact .inr ⟨root, hlt, hroot⟩
    · have heq := (h k).1 hk'
      omega

theorem getElem?_of_drop {l : Lexeme} {rest : List Lexeme} (h : ls.drop n = l :: rest) :
    ls[n]? = some l ∧ ls.drop (n + 1) = rest := by
  refine ⟨?_, ?_⟩
  · rw [← List.head?_drop, h, List.head?_cons]
  · rw [← List.tail_drop, h, List.tail_cons]

/-- **From the start tag of the root on**: it is closed or the text ends inside it. -/
theorem run_of_open {mode : Mode} {rest : List Lexeme} (hrest : Phrase mode rest)
    {nesting : Nesting} {b : Builder} (hdrop : ls.drop n = rest) (htracks : nesting.Tracks mode b)
    (hpends : Pends ls n mode b) (hcharts : Charts ls root n nesting.opened)
    (hroot : OpenAt ls root n rootTag root) :
    (b.run rest = .error .unclosedRoot ∧
        ∀ m, n ≤ m → ls[m]? = some (.closeTag rootTag) → ¬OnlyRootAt ls root m) ∨
      (∃ e, b.run rest = .ok e) ∧
        ∃ m, n ≤ m ∧ ls[m]? = some (.closeTag rootTag) ∧ OnlyRootAt ls root m := by
  induction hrest generalizing n nesting b with
  | nil =>
    refine .inl ⟨?_, fun m hm hclose => ?_⟩
    · have hne : b.opened ≠ [] := by
        intro hb
        have hnil : nesting.opened = [] := by rw [← htracks.opened, hb, List.map_nil]
        exact hcharts.eq_nil_iff.1 hnil _ _ hroot
      simp [Builder.run, hne]
    · rw [List.drop_eq_nil_iff] at hdrop
      rw [List.getElem?_eq_none (by omega)] at hclose
      cases hclose
  | @cons mode mode' l rest hl hrest ih =>
    obtain ⟨hn, hdrop'⟩ := getElem?_of_drop hdrop
    have hbegun : l = .tagEnd → ∀ tag, Begun ls tag n ↔ tag = nesting.current := by
      rintro rfl tag
      cases hl
      obtain ⟨e, hp, he, -⟩ := htracks.tag rfl
      rw [hpends.begun, hp, ← he]
      simp [eq_comm]
    have hle : root ≤ n := Nat.le_of_lt hroot.bounds.2
    have hcharts' := hcharts.next hn hle hbegun
    rw [run_cons]
    rcases htracks.feed hl with ⟨hends, e, hf, -⟩ | ⟨hends, b', hf, htracks', -⟩
    · rw [Nesting.closesAt, Bool.and_eq_true, List.isEmpty_iff] at hends
      have hclosed := hcharts'.eq_nil_iff.1 hends.2 rootTag root
      exact .inr ⟨⟨e, by rw [hf]; rfl⟩, n, Nat.le_refl n, (not_openAt_root_succ hroot).1 hclosed⟩
    · have hroot' : OpenAt ls root (n + 1) rootTag root := by
        by_contra hclosed
        obtain ⟨hclose, honly⟩ := (not_openAt_root_succ hroot).1 hclosed
        have hnil := hcharts'.eq_nil_iff.2 fun tag i => honly.not_openAt_succ hclose
        obtain rfl : l = .closeTag rootTag := by simpa [hn] using hclose
        simp [Nesting.closesAt, Lexeme.isEnding, hnil] at hends
      rw [hf, Progress.finish]
      rcases ih hdrop' htracks' (hpends.feed hn hl hf) hcharts' hroot' with
        ⟨hrun, hnever⟩ | ⟨hrun, m, hm, hclose⟩
      · refine .inl ⟨hrun, fun m hm hclose honly => ?_⟩
        rcases Nat.eq_or_lt_of_le hm with rfl | hlt
        · exact (not_openAt_root_succ hroot).2 ⟨hclose, honly⟩ hroot'
        · exact hnever m hlt hclose honly
      · exact .inr ⟨hrun, m, by omega, hclose⟩

/-- What becomes of lexemes, by the first complete start tag of a root. -/
inductive Finds (ls : List Lexeme) : Except ParseError Element → Prop
  | none (h : ∀ i, ¬Completes ls rootTag i) : Finds ls (.error .noRoot)
  | leaf {root : Nat} (hroot : RootAt ls root) (hend : ls[root]? = some .selfClose) (e : Element) :
      Finds ls (.ok e)
  | opened {root : Nat} (hroot : RootAt ls root) (hend : ls[root]? = some .tagEnd)
      (hrest : Phrase .content (ls.drop (root + 1))) {e : Element} (he : e.tag = rootTag) :
      Finds ls (Builder.run ⟨[e], none⟩ (ls.drop (root + 1)))

/-- **Up to the start tag of the root** everything is dropped. -/
theorem run_of_none {mode : Mode} {rest : List Lexeme} (hrest : Phrase mode rest)
    {pending : Option Element} (hdrop : ls.drop n = rest) (hpends : Pends ls n mode ⟨[], pending⟩)
    (hbefore : ∀ i < n, ¬Completes ls rootTag i) : Finds ls (Builder.run ⟨[], pending⟩ rest) := by
  induction hrest generalizing n pending with
  | nil =>
    refine .none fun i hi => ?_
    rw [List.drop_eq_nil_iff] at hdrop
    rcases Nat.lt_or_ge i n with hlt | hge
    · exact hbefore i hlt hi
    · have hnone : ls[i]? = none := List.getElem?_eq_none (by omega)
      simp [Completes, hnone] at hi
  | @cons mode mode' l rest hl hrest ih =>
    obtain ⟨hn, hdrop'⟩ := getElem?_of_drop hdrop
    -- a lexeme that completes no start tag of a root
    have hskip : ∀ pending', Builder.feed ⟨[], pending⟩ l = .more ⟨[], pending'⟩ →
        ¬Completes ls rootTag n → Finds ls (Builder.run ⟨[], pending⟩ (l :: rest)) := by
      intro pending' hf hcomplete
      have hbefore' : ∀ i < n + 1, ¬Completes ls rootTag i := by
        intro i hi
        rcases Nat.lt_succ_iff_lt_or_eq.1 hi with hi | rfl
        · exact hbefore i hi
        · exact hcomplete
      rw [run_cons, hf, Progress.finish]
      exact ih hdrop' (hpends.feed hn hl hf) hbefore'
    have hother : l = .tagEnd ∨ l = .selfClose → pending.map Element.tag ≠ some rootTag →
        Finds ls (Builder.run ⟨[], pending⟩ (l :: rest)) := by
      intro hend hp
      refine hskip none ?_ fun hcomplete => hp ((hpends.begun rootTag).1 hcomplete.1)
      cases pending with
      | none => rcases hend with rfl | rfl <;> rfl
      | some e =>
        have he : e.tag ≠ rootTag := by simpa using hp
        rcases hend with rfl | rfl <;> simp [Builder.feed, Builder.start, he]
    cases hl with
    | text => exact hskip _ rfl (by simp [Completes, hn])
    | comment => exact hskip _ rfl (by simp [Completes, hn])
    | cdata => exact hskip _ rfl (by simp [Completes, hn])
    | closeTag => exact hskip _ rfl (by simp [Completes, hn])
    | openTag => exact hskip _ rfl (by simp [Completes, hn])
    | «attribute» => exact hskip _ rfl (by simp [Completes, hn])
    | tagEnd =>
      by_cases hp : pending.map Element.tag = some rootTag
      · have hroot : RootAt ls n := ⟨⟨(hpends.begun _).2 hp, .inl hn⟩, hbefore⟩
        obtain ⟨e, rfl, he⟩ := Option.map_eq_some_iff.1 hp
        rw [run_open_root he, ← hdrop']
        exact .opened hroot hn (hdrop' ▸ hrest) he
      · exact hother (.inl rfl) hp
    | selfClose =>
      by_cases hp : pending.map Element.tag = some rootTag
      · have hroot : RootAt ls n := ⟨⟨(hpends.begun _).2 hp, .inr hn⟩, hbefore⟩
        obtain ⟨e, rfl, he⟩ := Option.map_eq_some_iff.1 hp
        rw [run_selfClose_root he]
        exact .leaf hroot hn e
      · exact hother (.inr rfl) hp

theorem rootAt_unique {root' : Nat} (h : RootAt ls root) (h' : RootAt ls root') : root = root' := by
  rcases Nat.lt_trichotomy root root' with hlt | heq | hlt
  · exact absurd h.1 (h'.2 root hlt)
  · exact heq
  · exact absurd h'.1 (h.2 root' hlt)

/-- Behind the start tag of the root only the root is open. -/
theorem charts_root (hroot : RootAt ls root) (hend : ls[root]? = some .tagEnd) :
    Charts ls root (root + 1) [rootTag] ∧ OpenAt ls root (root + 1) rootTag root := by
  have hbegun := hroot.1.1
  have hempty : Charts ls root root (Nesting.opened { current := rootTag }) := by
    refine ⟨[], rfl, .nil, fun tag i => iff_of_false (fun hopen => ?_) List.not_mem_nil⟩
    have hbounds := hopen.bounds
    omega
  have hnext := hempty.next hend (Nat.le_refl root)
    fun _ tag => ⟨fun h => begun_unique h hbegun, fun h => h ▸ hbegun⟩
  exact ⟨hnext, .inl ⟨rfl, Nat.le_refl root, hbegun, hend, by decide⟩⟩

/-- **The three ways in which reading a text can end.** -/
theorem parse_cases (s : List Char) :
    (parse s = .error .noRoot ∧ ¬∃ i, Completes ((tokenize s).map Token.lexeme) rootTag i) ∨
      (parse s = .error .unclosedRoot ∧ NeverClosed ((tokenize s).map Token.lexeme)) ∨
      ((∃ e, parse s = .ok e) ∧ (∃ i, Completes ((tokenize s).map Token.lexeme) rootTag i) ∧
        ¬NeverClosed ((tokenize s).map Token.lexeme)) := by
  have hphrase : Phrase .content ((tokenize s).map Token.lexeme) := phrase_lexemes .content s
  have hempty : Pends ((tokenize s).map Token.lexeme) 0 .content {} :=
    ⟨fun tag => iff_of_false not_begun_zero (by simp), fun _ => rfl⟩
  have hfinds : Finds ((tokenize s).map Token.lexeme) (parse s) :=
    run_of_none hphrase rfl hempty (by simp)
  generalize (tokenize s).map Token.lexeme = ls at hfinds
  generalize parse s = result at hfinds
  cases hfinds with
  | none h => exact .inl ⟨rfl, fun ⟨i, hi⟩ => h i hi⟩
  | leaf hroot hend e =>
    refine .inr (.inr ⟨⟨e, rfl⟩, ⟨_, hroot.1⟩, ?_⟩)
    rintro ⟨root', hroot', hend', -⟩
    rw [rootAt_unique hroot' hroot, hend] at hend'
    cases hend'
  | @opened root hroot hend hrest e he =>
    have hcharts := charts_root hroot hend
    have htracks : Nesting.Tracks ⟨[rootTag], rootTag⟩ .content ⟨[e], none⟩ :=
      ⟨by simp [he], by simp, by simp⟩
    have hpends : Pends ls (root + 1) .content ⟨[e], none⟩ :=
      .of_none hend (by simp) (by simp) rfl
    rcases run_of_open hrest rfl htracks hpends hcharts.1 hcharts.2 with
      ⟨hrun, hnever⟩ | ⟨hrun, m, hm, hclose, honly⟩
    · exact .inr (.inl ⟨hrun, root, hroot, hend, hnever⟩)
    · refine .inr (.inr ⟨hrun, ⟨_, hroot.1⟩, ?_⟩)
      rintro ⟨root', hroot', -, hnever⟩
      obtain rfl := rootAt_unique hroot' hroot
      exact hnever m hm hclose honly

end

theorem mapError_message (result : Except ParseError Element) (e : ParseError) :
    result.mapError ParseError.message = .error e.message ↔ result = .error e := by
  cases result with
  | ok root => simp [Except.mapError]
  | error e' => cases e <;> cases e' <;> simp [Except.mapError, ParseError.message]

/-- **When a text has no tree, and why.** There is no root if no start tag of one is complete; otherwise
the root is never closed or the text has a tree. -/
theorem parse_error_iff (s : List Char) :
    ((parse s).mapError ParseError.message = .error "No <svg> root element found" ↔
        ¬∃ i, Completes ((tokenize s).map Token.lexeme) rootTag i) ∧
      ((parse s).mapError ParseError.message = .error "The <svg> root element is never closed" ↔
        NeverClosed ((tokenize s).map Token.lexeme)) ∧
      ((∃ root, parse s = .ok root) ↔
        (∃ i, Completes ((tokenize s).map Token.lexeme) rootTag i) ∧
          ¬NeverClosed ((tokenize s).map Token.lexeme)) := by
  have hcompletes : NeverClosed ((tokenize s).map Token.lexeme) →
      ∃ i, Completes ((tokenize s).map Token.lexeme) rootTag i := by
    rintro ⟨root, hroot, -⟩
    exact ⟨root, hroot.1⟩
  have hmissing := mapError_message (parse s) .noRoot
  have hunclosed := mapError_message (parse s) .unclosedRoot
  refine ⟨hmissing.trans ?_, hunclosed.trans ?_, ?_⟩ <;>
    rcases parse_cases s with ⟨h, hnone⟩ | ⟨h, hnever⟩ | ⟨⟨e, h⟩, hsome, hclosed⟩
  · exact iff_of_true h hnone
  · exact iff_of_false (by simp [h]) fun hnone => hnone (hcompletes hnever)
  · exact iff_of_false (by simp [h]) fun hnone => hnone hsome
  · exact iff_of_false (by simp [h]) fun hnever => hnone (hcompletes hnever)
  · exact iff_of_true h hnever
  · exact iff_of_false (by simp [h]) hclosed
  · exact iff_of_false (by simp [h]) fun hok => hnone hok.1
  · exact iff_of_false (by simp [h]) fun hok => hok.2 hnever
  · exact iff_of_true ⟨e, h⟩ ⟨hsome, hclosed⟩

-- a close tag of `g` closes the inner element as well, so that the next one is the root's
example : (parse "<svg><g><svg></g></svg>".toList).isOk = true ∧
    (parse "<svg><svg></g></svg>".toList).isOk = false := by
  decide +kernel

end SvgComponent.Markup
