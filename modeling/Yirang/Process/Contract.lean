/-
# `Yirang.Process.Contract` — what is promised of a supervisor is kept

The engine is proved against a device whose supervisor is only promised
something: it makes one process or none, it stops what it says it stops, and
it adopts what is there.  `PosixProcessSupervisor` keeps the promise.

    Call        the calls of `IProcessSupervisor`, on either side
    Life        the calls of one agent after another, with kills in them
    Answered    what the promised supervisor may answer to such calls
    Matched     no instance that is in the process table is dead there
    supervisor_keeps_its_contract
                whatever was answered, it may have answered so

A handle with the token 0 is one whose token could not be read.  It cannot be
adopted, so that only the agent that has it can stop its instance.
-/
import Yirang.Process.Truth

namespace Yirang

open Effect

namespace Posix

variable {handle : ProcessHandle} {t : BitVec 64} {m m' m₀ : Supervisor} {w w' w₀ : Kernel}
  {P : ProcessHandle → Prop} {d d' d₀ : World} {latest latest' : Latest}

/-! ## Calls -/

inductive Call where
  | start (options : ProcessStartOptions)
  | adopt (handle : ProcessHandle)
  | status (handle : ProcessHandle)
  | stop (handle : ProcessHandle) (timeout : Int)

namespace Call

abbrev Val : Call → Type
  | .start _ | .adopt _ => ProcessHandle
  | .status _ => ProcessStatus
  | .stop _ _ => Unit

/-- As the supervisor does it. -/
def task : (c : Call) → Step c.Val
  | .start options => Posix.start options
  | .adopt handle => Posix.adopt handle
  | .status handle => Posix.status handle
  | .stop handle timeout => Posix.stop handle timeout

/-- As it is promised. -/
def promised (choice : Yirang.Choice) : (c : Call) → World → Except String c.Val × World
  | .start options, d => Device.answer choice (.start options) d
  | .adopt handle, d => Device.answer choice (.adopt handle) d
  | .status handle, d => Device.answer choice (.status handle) d
  | .stop handle timeout, d => Device.answer choice (.stop handle timeout) d

end Call

/-- A handle, and the token of the instance that it was given out for. -/
abbrev Given := ProcessHandle × BitVec 64

def instanceOf (e : Given) : ProcessHandle := ⟨e.1.id, e.2⟩

/-- `adopt` is called with a handle that `start` gave out, and `status` and
`stop` with the latest of its pid. -/
def Call.Legal (latest : Latest) (made : List Given) : Call → Prop
  | .start _ => True
  | .adopt handle => handle ∈ made.map Prod.fst
  | .status handle | .stop handle _ => ∃ t, latest handle.id = some (handle, t)

/-- The handles that are the latest after a call. -/
def Call.grants (w' : Kernel) (latest : Latest) : (c : Call) → Except String c.Val → Latest
  | .start _, res => latest.give (fun handle => w'.tokenOf handle.id) res
  | .adopt _, res => latest.give ProcessHandle.startToken res
  | .status _, _ | .stop _ _, _ => latest

/-- What a call has made. -/
def Call.given (w' : Kernel) (made : List Given) : (c : Call) → Except String c.Val → List Given
  | .start _, .ok handle => (handle, w'.tokenOf handle.id) :: made
  | _, _ => made

/-- The child that a call has left when it was cut short. -/
def newborn (w w' : Kernel) : Option Given :=
  (w'.children.find? fun g => g ∉ w.children).map fun g => (g, g.startToken)

def Call.left (w w' : Kernel) : Call → Option Given
  | .start _ => newborn w w'
  | _ => none

/-- A call, and what it returned, unless the agent was killed. -/
structure Event where
  call : Call
  seen : Option (Except String call.Val)

/-- The children of an agent that has ended are somebody else's. -/
def Orphaned (w w' : Kernel) : Prop := w'.procs = w.procs.map fun q => { q with child := false }

/-- The calls on the supervisors of one agent after another.  An agent may be
killed at every call of a supervisor's, and a new one knows nothing. -/
inductive Life (P : ProcessHandle → Prop) (w₀ : Kernel) :
    Supervisor → Kernel → Latest → List Given → List Event → Prop
  | fresh : Life P w₀ {} w₀ (fun _ => none) [] []
  | idle {m : Supervisor} {w : Kernel} {latest : Latest} {made : List Given} {trace : List Event}
      (l : List Happening) : Life P w₀ m w latest made trace →
      (∀ q, Happening.born q ∈ l → ¬ P q.handle) →
      Life P w₀ m (l.foldl Kernel.happen w) latest made trace
  | call {m m' : Supervisor} {w w' : Kernel} {latest : Latest} {made : List Given}
      {trace : List Event} (c : Call) {res : Except String c.Val} :
      Life P w₀ m w latest made trace → c.Legal latest made →
      Exec answer (Unrepeated P (made.map instanceOf)) c.task.run m w (.done res m') w' →
      Life P w₀ m' w' (c.grants w' latest res) (c.given w' made res) (⟨c, some res⟩ :: trace)
  | killed {m m' : Supervisor} {w w' w'' : Kernel} {latest : Latest} {made : List Given}
      {trace : List Event} (c : Call) {o : Op} :
      Life P w₀ m w latest made trace → c.Legal latest made →
      Exec answer (Unrepeated P (made.map instanceOf)) c.task.run m w (.before m' o) w' →
      Orphaned w' w'' →
      Life P w₀ {} w'' (fun _ => none) ((c.left w w').toList ++ made) (⟨c, none⟩ :: trace)
  | restart {m : Supervisor} {w w' : Kernel} {latest : Latest} {made : List Given}
      {trace : List Event} : Life P w₀ m w latest made trace → Orphaned w w' →
      Life P w₀ {} w' (fun _ => none) made trace

/-- The promised supervisor may answer so, to calls newest first. -/
inductive Answered (d₀ : World) : List Event → World → Prop
  | nil : Answered d₀ [] d₀
  | cons {l : List Event} {d : World} (e : Event) (choice : Yirang.Choice) : Answered d₀ l d →
      (∀ res, e.seen = some res → (e.call.promised choice d).1 = res) →
      Answered d₀ (e :: l) (e.call.promised choice d).2

/-! ## The promised supervisor -/

section Promised

theorem bury_nil : d.bury [] = d := d.spare_true

theorem live_bury_nil : (d.bury []).live = d.live := congrArg World.live bury_nil

/-- A call that fails does nothing. -/
theorem promised_fails (c : Call) (why : String) :
    (c.promised { chance := { fault := some why } } d).1 = .error why ∧
      (c.promised { chance := { fault := some why } } d).2.live = d.live := by
  cases c <;> exact ⟨rfl, live_bury_nil⟩

/-- Who has the pid is buried. -/
theorem promised_starts (options : ProcessStartOptions) {h : ProcessHandle} (hpos : 0 < h.id) :
    ∃ choice : Yirang.Choice, (Call.promised choice (.start options) d).1 = .ok h ∧
      ∀ p, p ∈ (Call.promised choice (.start options) d).2.live ↔
        p = ⟨h, options⟩ ∨ p ∈ d.live ∧ p.handle.id ≠ h.id := by
  let dead := (d.live.map Process.handle).filter fun g => g.id = h.id
  have hlive : ∀ p, p ∈ (d.bury dead).live ↔ p ∈ d.live ∧ p.handle.id ≠ h.id := by
    intro p
    simp only [World.bury, World.spare, List.mem_filter, Bool.not_eq_true', dead,
      List.contains_eq_mem, decide_eq_false_iff_not, List.mem_map, decide_eq_true_eq]
    constructor
    · rintro ⟨hp, hno⟩
      exact ⟨hp, fun hid => hno ⟨⟨p, hp, rfl⟩, hid⟩⟩
    · rintro ⟨hp, hne⟩
      exact ⟨hp, fun hd => hne hd.2⟩
  have hfree : 0 < h.id ∧ h.id ∉ (d.bury dead).live.map fun q => q.handle.id := by
    refine ⟨hpos, fun hmem => ?_⟩
    obtain ⟨q, hq, hid⟩ := List.mem_map.mp hmem
    exact ((hlive q).mp hq).2 hid
  have hmade : Device.perform { dead := dead, handle := h } (.start options) (d.bury dead) =
      (.ok h, (d.bury dead).spawn ⟨h, options⟩ hfree) := by
    simp only [Device.perform]
    exact dif_pos hfree
  refine ⟨{ dead := dead, handle := h }, congrArg Prod.fst hmade, fun p => ?_⟩
  have hstays : (Call.promised { dead := dead, handle := h } (.start options) d).2.live =
      ⟨h, options⟩ :: (d.bury dead).live := congrArg (fun r => r.2.live) hmade
  rw [hstays, List.mem_cons, hlive]

theorem promised_adopts {p : Process} (hp : p ∈ d.live) :
    (Call.promised {} (.adopt p.handle) d).1 = .ok p.handle ∧
      (Call.promised {} (.adopt p.handle) d).2.live = d.live := by
  have hthere : d.live.any (fun q => q.handle = p.handle) = true :=
    List.any_eq_true.mpr ⟨p, hp, decide_eq_true rfl⟩
  have hmade : Device.perform {} (.adopt p.handle) (d.bury []) = (.ok p.handle, d) := by
    rw [bury_nil]
    simp only [Device.perform, hthere, if_true]
  exact ⟨congrArg Prod.fst hmade, congrArg (fun r => r.2.live) hmade⟩

theorem promised_looks (handle : ProcessHandle) (s : ProcessStatus) :
    (Call.promised { status := s } (.status handle) d).1 = .ok s ∧
      (Call.promised { status := s } (.status handle) d).2.live = d.live :=
  ⟨rfl, live_bury_nil⟩

theorem promised_stops (handle : ProcessHandle) (timeout : Int) :
    (Call.promised {} (.stop handle timeout) d).1 = .ok () ∧
      ∀ p ∈ d.live, p.handle ≠ handle → p ∈ (Call.promised {} (.stop handle timeout) d).2.live := by
  refine ⟨rfl, fun p hp hne => ?_⟩
  have hstays : (Call.promised {} (.stop handle timeout) d).2.live =
      (d.bury []).live.filter fun q => q.handle ≠ handle := rfl
  rw [hstays, bury_nil]
  exact List.mem_filter.mpr ⟨hp, decide_eq_true hne⟩

end Promised

/-! ## The books -/

/-- What the handles that were given out say of the process table, and the
device that was promised of them. -/
structure Books (P : ProcessHandle → Prop) (w : Kernel) (latest : Latest) (made : List Given)
    (d : World) : Prop where
  mine : ∀ e ∈ made, P (instanceOf e)
  token : ∀ e ∈ made, e.1.startToken = e.2 ∨ e.1.startToken = 0
  newest : ∀ e ∈ made, Here (instanceOf e) w →
    made.find? (fun x => x.1.id = e.1.id) = some e
  latest : ∀ i e, latest i = some e → made.find? (fun x => x.1.id = i) = some e
  living : ∀ e ∈ made, Here (instanceOf e) w → ∃ p ∈ d.live, p.handle = e.1

namespace Books

variable {made : List Given}

theorem lasts (h : Books P w latest made d) (hw : Lasting P w w') : Books P w' latest made d where
  mine := h.mine
  token := h.token
  newest e he hhere := h.newest e he (hw _ (h.mine e he) hhere)
  latest := h.latest
  living e he hhere := h.living e he (hw _ (h.mine e he) hhere)

theorem device (h : Books P w latest made d) (hd : d'.live = d.live) :
    Books P w latest made d' where
  mine := h.mine
  token := h.token
  newest := h.newest
  latest := h.latest
  living := by
    rw [hd]
    exact h.living

theorem forgets (h : Books P w latest made d) : Books P w (fun _ => none) made d where
  mine := h.mine
  token := h.token
  newest := h.newest
  latest _ _ hl := by cases hl
  living := h.living

/-- An instance more, and the handle that was given out for it. -/
theorem born (h : Books P w latest made d) {i : ProcessHandle} {e : Given}
    (hb : Born P (made.map instanceOf) i w w') (hi : instanceOf e = i)
    (htoken : e.1.startToken = e.2 ∨ e.1.startToken = 0)
    (hlatest : ∀ j x, latest' j = some x → x = e ∧ j = e.1.id ∨ j ≠ e.1.id ∧ latest j = some x)
    (hnew : ∃ p ∈ d'.live, p.handle = e.1)
    (hd : ∀ p ∈ d.live, p.handle.id ≠ e.1.id → p ∈ d'.live) :
    Books P w' latest' (e :: made) d' := by
  subst hi
  -- an instance that was made before is no longer there, or has another pid
  have hold : ∀ x ∈ made, Here (instanceOf x) w' → Here (instanceOf x) w ∧ x.1.id ≠ e.1.id := by
    intro x hx hhere
    rcases hb.others _ (h.mine x hx) hhere with he | he
    · exact absurd (he ▸ List.mem_map_of_mem hx) hb.unused
    · exact he
  have hskip : ∀ j, j ≠ e.1.id →
      (e :: made).find? (fun x => x.1.id = j) = made.find? fun x => x.1.id = j :=
    fun j hj => List.find?_cons_of_neg (by simpa using fun he : e.1.id = j => hj he.symm)
  have hhead : (e :: made).find? (fun x => x.1.id = e.1.id) = some e :=
    List.find?_cons_of_pos (by simp)
  refine ⟨fun x hx => ?_, fun x hx => ?_, fun x hx hhere => ?_, fun j x hl => ?_,
    fun x hx hhere => ?_⟩
  · rcases List.mem_cons.mp hx with rfl | hx
    · exact hb.mine
    · exact h.mine x hx
  · rcases List.mem_cons.mp hx with rfl | hx
    · exact htoken
    · exact h.token x hx
  · rcases List.mem_cons.mp hx with rfl | hx
    · exact hhead
    · obtain ⟨hbefore, hne⟩ := hold x hx hhere
      rw [hskip _ hne]
      exact h.newest x hx hbefore
  · rcases hlatest j x hl with ⟨rfl, rfl⟩ | ⟨hne, hl⟩
    · exact hhead
    · rw [hskip _ hne]
      exact h.latest j x hl
  · rcases List.mem_cons.mp hx with rfl | hx
    · exact hnew
    · obtain ⟨hbefore, hne⟩ := hold x hx hhere
      obtain ⟨p, hp, hhandle⟩ := h.living x hx hbefore
      exact ⟨p, hd p hp (by rw [hhandle]; exact hne), hhandle⟩

/-- The instance of a handle that can be adopted is the one it was given out
for. -/
theorem adopted (h : Books P w latest made d) (hmade : handle ∈ made.map Prod.fst)
    (htoken : handle.startToken ≠ 0) : (handle, handle.startToken) ∈ made := by
  obtain ⟨⟨x, t⟩, he, rfl⟩ := List.mem_map.mp hmade
  rcases h.token _ he with hsame | hzero
  · dsimp only at hsame htoken ⊢
    rw [hsame]
    exact he
  · exact absurd hzero htoken

/-- A process that was stopped is not the one of another instance. -/
theorem stopped (h : Books P w latest made d) (hl : latest handle.id = some (handle, t))
    (hw : Lasting P w w') (hgone : ¬ Here ⟨handle.id, t⟩ w')
    (hd : ∀ p ∈ d.live, p.handle ≠ handle → p ∈ d'.live) : Books P w' latest made d' where
  mine := h.mine
  token := h.token
  newest := (h.lasts hw).newest
  latest := h.latest
  living e he hhere := by
    obtain ⟨p, hp, hhandle⟩ := (h.lasts hw).living e he hhere
    refine ⟨p, hd p hp fun hsame => hgone ?_, hhandle⟩
    -- both are the newest of their pid
    have hnewest := (h.lasts hw).newest e he hhere
    rw [← hhandle, hsame, h.latest _ _ hl] at hnewest
    cases hnewest
    exact hhere

end Books

/-! ## One call -/

/-- What is known of the instances, and what was promised of them. -/
structure Matched (P : ProcessHandle → Prop) (m : Supervisor) (w : Kernel) (latest : Latest)
    (made : List Given) (d : World) : Prop where
  known : Known m w latest
  sure : ∀ i x t, latest i = some (x, t) → Sure x t m w
  books : Books P w latest made d

namespace Matched

variable {made : List Given}

theorem mine (h : Matched P m w latest made d) {i : Int} {x : ProcessHandle}
    (hl : latest i = some (x, t)) : P ⟨x.id, t⟩ :=
  h.books.mine (x, t) (List.mem_of_find?_eq_some (h.books.latest i _ hl))

/-- Nothing is known any more. -/
theorem anew (latest : Latest) (h : Books P w latest made d) (hw : Lasting P w w') :
    Matched P {} w' (fun _ => none) made d where
  known := ⟨fun _ _ hs => (by cases hs), fun _ _ _ hl => (by cases hl),
    fun _ _ _ hl => (by cases hl)⟩
  sure _ _ _ hl := by cases hl
  books := (h.lasts hw).forgets

theorem idle (h : Matched P m w latest made d) {l : List Happening}
    (hl : ∀ q, Happening.born q ∈ l → ¬ P q.handle) :
    Matched P m (l.foldl Kernel.happen w) latest made d where
  known := h.known.world fun _ => along_children
  sure i x t hx := (h.sure i x t hx).lasts (h.mine hx) (along_lasting hl)
  books := h.books.lasts (along_lasting hl)

/-- A call about the latest handle of a pid. -/
theorem kept (h : Matched P m w latest made d) (hl : latest handle.id = some (handle, t))
    (hk : Kept handle t m w m' w') (hs : Sure handle t m' w') (hw : Lasting P w w')
    (hb : Books P w' latest made d') : Matched P m' w' latest made d' where
  known := h.known.of_kept hl hk
  sure i x t' hx := by
    obtain ⟨hid, _⟩ := h.known.pid i x t' hx
    by_cases hi : i = handle.id
    · rw [hi, hl] at hx
      cases hx
      exact hs
    · intro s hfin
      rw [(hk.sup x.id (hid ▸ hi)).1] at hfin
      exact (h.sure i x t' hx).lasts (h.mine hx) hw s hfin
  books := hb

theorem started (h : Matched P m w latest made d) {options : ProcessStartOptions}
    {res : Except String ProcessHandle}
    (hr : Launched P (made.map instanceOf) m w res m' w') (hb : Began m w res m' w') :
    ∃ choice, ((Call.start options).promised choice d).1 = res ∧
      Matched P m' w' ((Call.start options).grants w' latest res)
        ((Call.start options).given w' made res) ((Call.start options).promised choice d).2 := by
  have hknown := h.known.began hb
  cases hr with
  | @failed why _ _ hw =>
      obtain ⟨hres, hlive⟩ := promised_fails (d := d) (.start options) why
      exact ⟨_, hres, hknown, fun i x t hx => (h.sure i x t hx).lasts (h.mine hx) hw,
        (h.books.lasts hw).device hlive⟩
  | @made x i _ hborn hid htoken =>
      have hpos : 0 < x.id := by
        rw [hid]
        exact Int.lt_trans (by decide) hborn.made.pid.1
      have hi : w'.tokenOf x.id = i.startToken := by
        rw [hid]
        exact hborn.made.tokenOf
      obtain ⟨choice, hres, hlive⟩ := promised_starts (d := d) options hpos
      refine ⟨choice, hres, hknown, fun j y t hy => ?_, ?_⟩
      · simp only [Call.grants, Latest.give] at hy
        split at hy
        · cases hy
          exact .open (if_pos rfl)
        · rename_i hne
          intro s hfin hhere
          obtain ⟨hyj, _⟩ := h.known.pid j y t hy
          simp only [Supervisor.forget, hyj, if_neg hne] at hfin
          rcases hborn.others _ (h.mine hy) hhere with he | ⟨hbefore, _⟩
          · exact hne (by rw [hid, ← he, hyj])
          · exact h.sure j y t hy s (by rw [hyj]; exact hfin) hbefore
      · refine h.books.born (i := i) (e := (x, w'.tokenOf x.id)) hborn ?_ ?_ ?_ ?_ ?_
        · rw [instanceOf, hi, hid]
        · rw [hi]
          exact htoken
        · intro j y hy
          simp only [Call.grants, Latest.give] at hy
          split at hy
          · rename_i hj
            cases hy
            exact Or.inl ⟨rfl, hj⟩
          · rename_i hne
            exact Or.inr ⟨hne, hy⟩
        · exact ⟨_, (hlive _).mpr (Or.inl rfl), rfl⟩
        · exact fun p hp hne => (hlive p).mpr (Or.inr ⟨hp, hne⟩)

theorem adopted (h : Matched P m w latest made d) {res : Except String ProcessHandle}
    (hmade : handle ∈ made.map Prod.fst) (hv : Verified handle m w res m' w')
    (ht : ∀ x, res = .ok x → x = handle ∧ handle.startToken ≠ 0 ∧ Here handle w)
    (hw : Lasting P w w') :
    ∃ choice, ((Call.adopt handle).promised choice d).1 = res ∧
      Matched P m' w' ((Call.adopt handle).grants w' latest res) made
        ((Call.adopt handle).promised choice d).2 := by
  have hknown := h.known.verified hv
  cases hv with
  | @refused why _ _ =>
      obtain ⟨hres, hlive⟩ := promised_fails (d := d) (.adopt handle) why
      exact ⟨_, hres, hknown, fun i x t hx => (h.sure i x t hx).lasts (h.mine hx) hw,
        (h.books.lasts hw).device hlive⟩
  | taken _ _ _ _ =>
      obtain ⟨-, htoken, hhere⟩ := ht handle rfl
      have he := h.books.adopted hmade htoken
      obtain ⟨p, hp, hsame⟩ := h.books.living _ he hhere
      obtain ⟨hres, hlive⟩ := promised_adopts hp
      rw [show p.handle = handle from hsame] at hres hlive
      refine ⟨{}, hres, hknown, fun i x t hx => ?_, ?_⟩
      · simp only [Call.grants, Latest.give] at hx
        split at hx
        · cases hx
          exact .open (if_pos rfl)
        · rename_i hne
          intro s hfin
          obtain ⟨hxi, _⟩ := h.known.pid i x t hx
          simp only [Supervisor.take, hxi, if_neg hne] at hfin
          exact (h.sure i x t hx).lasts (h.mine hx) hw s (by rw [hxi]; exact hfin)
      · refine ⟨h.books.mine, h.books.token, (h.books.lasts hw).newest, fun i e hl => ?_, ?_⟩
        · simp only [Call.grants, Latest.give] at hl
          split at hl
          · rename_i hi
            cases hl
            rw [hi]
            exact h.books.newest _ he hhere
          · exact h.books.latest i e hl
        · exact ((h.books.lasts hw).device hlive).living

theorem looked (h : Matched P m w latest made d) {res : Except String ProcessStatus}
    (hl : latest handle.id = some (handle, t)) (hk : Kept handle t m w m' w')
    (hs : Sure handle t m' w') (hw : Lasting P w w') :
    ∃ choice, ((Call.status handle).promised choice d).1 = res ∧
      Matched P m' w' latest made ((Call.status handle).promised choice d).2 := by
  cases res with
  | error why =>
      obtain ⟨hres, hlive⟩ := promised_fails (d := d) (.status handle) why
      exact ⟨_, hres, h.kept hl hk hs hw ((h.books.lasts hw).device hlive)⟩
  | ok s =>
      obtain ⟨hres, hlive⟩ := promised_looks (d := d) handle s
      exact ⟨_, hres, h.kept hl hk hs hw ((h.books.lasts hw).device hlive)⟩

theorem stopped (h : Matched P m w latest made d) {res : Except String Unit} {timeout : Int}
    (hl : latest handle.id = some (handle, t)) (hk : Kept handle t m w m' w')
    (hs : Stopped handle t res m' w') (hw : Lasting P w w') :
    ∃ choice, ((Call.stop handle timeout).promised choice d).1 = res ∧
      Matched P m' w' latest made ((Call.stop handle timeout).promised choice d).2 := by
  cases res with
  | error why =>
      obtain ⟨hres, hlive⟩ := promised_fails (d := d) (.stop handle timeout) why
      exact ⟨_, hres, h.kept hl hk hs.1 hw ((h.books.lasts hw).device hlive)⟩
  | ok u =>
      obtain ⟨hres, hlive⟩ := promised_stops (d := d) handle timeout
      exact ⟨_, hres, h.kept hl hk hs.1 hw (h.books.stopped hl hw (hs.2 rfl) hlive)⟩

/-- Whatever a call returns, the promised supervisor may return it. -/
theorem call (h : Matched P m w latest made d) {c : Call} {res : Except String c.Val}
    (hc : c.Legal latest made)
    (he : Exec answer (Unrepeated P (made.map instanceOf)) c.task.run m w (.done res m') w') :
    ∃ choice, (c.promised choice d).1 = res ∧
      Matched P m' w' (c.grants w' latest res) (c.given w' made res) (c.promised choice d).2 := by
  have hfree : Exec answer Freely c.task.run m w (.done res m') w' :=
    he.mono fun _ _ _ _ => trivial
  cases c with
  | start options => exact h.started (wp_done he start_launched) (wp_done hfree start_began)
  | adopt handle =>
      refine h.adopted hc (wp_done hfree adopt_verified) (wp_done he (adopt_true fun hne => ?_))
        (exec_lasting (adopt_quiet.mono Op.Quiet.ne_fork) he)
      exact h.books.mine _ (h.books.adopted hc hne)
  | status handle =>
      obtain ⟨t, hl⟩ := hc
      obtain ⟨_, hone, hlt⟩ := h.known.pid _ _ _ hl
      have hp : 0 < handle.id := Int.lt_trans (by decide) hone
      have hid := pidT_eq hone hlt
      have hk := h.known.kept hl
      exact h.looked hl (wp_done hfree (status_looked hp hid hk)).1
        (wp_done hfree (status_judged hp hid hk (h.sure _ _ _ hl))).1
        (exec_lasting (status_quiet.mono Op.Quiet.ne_fork) he)
  | stop handle timeout =>
      obtain ⟨t, hl⟩ := hc
      obtain ⟨_, hone, hlt⟩ := h.known.pid _ _ _ hl
      have hp : 0 < handle.id := Int.lt_trans (by decide) hone
      have hid := pidT_eq hone hlt
      have hk := h.known.kept hl
      have hkept : Kept handle t m w m' w' := by
        have hk' := wp_done hfree (stop_kept hp hid hk)
        exact hk'
      exact h.stopped hl hkept
        (wp_done hfree (stop_true hp hid hk (h.sure _ _ _ hl))) (exec_lasting stop_lasts he)

end Matched

/-! ## Whole lives -/

section Killed

variable {made : List Given} {o : Op}

theorem orphaned_lasting (h : Orphaned w w') : Lasting P w w' := by
  rintro g - ⟨q', hq', rfl⟩
  rw [h] at hq'
  obtain ⟨q, hq, rfl⟩ := List.mem_map.mp hq'
  exact ⟨q, hq, rfl⟩

theorem newborn_none (h : ∀ g, g ∈ w'.children ↔ g ∈ w.children) : newborn w w' = none := by
  have hnone : (w'.children.find? fun g => g ∉ w.children) = none := by
    rw [List.find?_eq_none]
    intro g hg hno
    exact of_decide_eq_true hno ((h g).mp hg)
  rw [newborn, hnone]
  rfl

theorem newborn_some {i : ProcessHandle} (h : Made i.id i.startToken w w') :
    newborn w w' = some (i, i.startToken) := by
  have hmem : i ∈ w'.children := (h.child i).mpr (Or.inl rfl)
  have hnew : i ∉ w.children := fun hold => h.fresh i hold rfl
  unfold newborn
  cases hfind : w'.children.find? fun g => g ∉ w.children with
  | none => exact absurd (decide_eq_true hnew) (List.find?_eq_none.mp hfind i hmem)
  | some g =>
      have hg : g ∉ w.children := by simpa using List.find?_some hfind
      rcases (h.child g).mp (List.mem_of_find?_eq_some hfind) with rfl | hold
      · rfl
      · exact absurd hold hg

/-- Wherever a call is cut short, the promised supervisor may have been. -/
theorem Matched.killed {w₁ : Kernel} (h : Matched P m w latest made d) (c : Call)
    (he : Exec answer (Unrepeated P (made.map instanceOf)) c.task.run m w (.before m' o) w')
    (ho : Orphaned w' w₁) :
    ∃ choice, Matched P {} w₁ (fun _ => none) ((c.left w w').toList ++ made)
      (c.promised choice d).2 := by
  have hstill : Lasting P w w' → c.left w w' = none →
      ∃ choice, Matched P {} w₁ (fun _ => none) ((c.left w w').toList ++ made)
        (c.promised choice d).2 := fun hw hnone => by
    obtain ⟨-, hlive⟩ := promised_fails (d := d) c "killed"
    rw [hnone]
    exact ⟨_, .anew _ (h.books.device hlive) (hw.trans (orphaned_lasting ho))⟩
  cases c with
  | start options =>
      rcases wp_before he start_launched with ⟨hkin, hw⟩ | ⟨i, hborn⟩
      · exact hstill hw (newborn_none hkin)
      · have hpos : 0 < i.id := Int.lt_trans (by decide) hborn.made.pid.1
        obtain ⟨choice, -, hlive⟩ := promised_starts (d := d) options hpos
        refine ⟨choice, .anew (fun _ => none) ?_ (orphaned_lasting ho)⟩
        rw [Call.left, newborn_some hborn.made]
        exact h.books.born hborn rfl (Or.inl rfl) (fun _ _ hl => by cases hl)
          ⟨_, (hlive _).mpr (Or.inl rfl), rfl⟩ fun p hp hne => (hlive p).mpr (Or.inr ⟨hp, hne⟩)
  | adopt handle => exact hstill (exec_lasting (adopt_quiet.mono Op.Quiet.ne_fork) he) rfl
  | status handle => exact hstill (exec_lasting (status_quiet.mono Op.Quiet.ne_fork) he) rfl
  | stop handle timeout => exact hstill (exec_lasting stop_lasts he) rfl

end Killed

theorem Life.matched {made : List Given} {trace : List Event}
    (h : Life P w₀ m w latest made trace) (d₀ : World) :
    ∃ d, Answered d₀ trace d ∧ Matched P m w latest made d := by
  induction h with
  | fresh =>
      exact ⟨d₀, .nil, ⟨fun _ _ hs => (by cases hs), fun _ _ _ hl => (by cases hl),
        fun _ _ _ hl => (by cases hl)⟩, fun _ _ _ hl => (by cases hl),
        ⟨fun _ he => (by cases he), fun _ he => (by cases he), fun _ he => (by cases he),
          fun _ _ hl => (by cases hl), fun _ he => (by cases he)⟩⟩
  | idle l _ hl ih =>
      obtain ⟨d, ha, hm⟩ := ih
      exact ⟨d, ha, hm.idle hl⟩
  | call c _ hc he ih =>
      obtain ⟨d, ha, hm⟩ := ih
      obtain ⟨choice, hres, hm'⟩ := hm.call hc he
      exact ⟨_, .cons ⟨c, _⟩ choice ha (fun res hseen => by cases hseen; exact hres), hm'⟩
  | killed c _ _ he ho ih =>
      obtain ⟨d, ha, hm⟩ := ih
      obtain ⟨choice, hm'⟩ := hm.killed c he ho
      exact ⟨_, .cons ⟨c, none⟩ choice ha (fun res hseen => by cases hseen), hm'⟩
  | restart _ ho ih =>
      obtain ⟨d, ha, hm⟩ := ih
      exact ⟨d, ha, .anew _ hm.books (orphaned_lasting ho)⟩

/-- Whatever the supervisors of one agent after another answered, the promised
supervisor may have answered so; every instance of theirs that is still in
the process table is a living process there, and no two are the same one. -/
theorem supervisor_keeps_its_contract {made : List Given} {trace : List Event}
    (h : Life P w₀ m w latest made trace) (d₀ : World) :
    ∃ d, Answered d₀ trace d ∧
      (∀ e ∈ made, Here (instanceOf e) w → ∃ p ∈ d.live, p.handle = e.1) ∧
      ∀ e ∈ made, ∀ e' ∈ made, Here (instanceOf e) w → Here (instanceOf e') w → e.1 = e'.1 →
        e = e' := by
  obtain ⟨d, ha, hm⟩ := h.matched d₀
  refine ⟨d, ha, hm.books.living, fun e he e' he' hhere hhere' hsame => ?_⟩
  have hnewest := hm.books.newest e he hhere
  rw [hsame, hm.books.newest e' he' hhere'] at hnewest
  cases hnewest
  rfl

/-! ## An agent that starts again -/

namespace Sample

def bare : Kernel where
  procs := []
  home := ⟨5, 1⟩
  sent := []
  distinct := by decide
  bounded := by decide
  founded := by decide
  init := by decide

def options : ProcessStartOptions := ⟨["srv", "bin", "app"], [], ""⟩

/-- The one process that is started. -/
def only (g : ProcessHandle) : Prop := g = ⟨10, 7⟩

def born : Choice := { newcomer := { pid := 10, token := 7 } }

def begun := (start options).run.run answer [{}, {}, born, {}, {}, {}] {} bare

/-- The agent has ended, and the process lives on. -/
def left : Kernel :=
  begun.2.change (fun q => { q with child := false }) fun _ _ => ⟨rfl, Or.inl rfl⟩

theorem quietly {P : ProcessHandle → Prop} {used : List ProcessHandle} {w : Kernel} {o : Op}
    (ho : o ≠ .fork) : Unrepeated P used w o {} :=
  ⟨fun _ hq => (by cases hq), fun h => absurd h ho⟩

theorem begins : Exec answer (Unrepeated only []) (start options).run {} bare
    (.done (.ok ⟨10, 7⟩) (Supervisor.forget {} 10)) begun.2 := by
  have hborn : ∀ w, Unrepeated only [] w .fork born := fun w =>
    ⟨fun _ hq => (by cases hq), fun _ => ⟨rfl, List.not_mem_nil⟩⟩
  refine exec_of_run (l := [{}, {}, born, {}, {}, {}]) ?_ rfl
  exact And.intro (quietly fun h => by cases h) (And.intro (quietly fun h => by cases h)
    (And.intro (hborn _) (And.intro (quietly fun h => by cases h)
      (And.intro (quietly fun h => by cases h) (And.intro (quietly fun h => by cases h) trivial)))))

theorem adopts : Exec answer (Unrepeated only [⟨10, 7⟩]) (adopt ⟨10, 7⟩).run ({} : Supervisor) left
    (.done (.ok ⟨10, 7⟩) (Supervisor.take {} 10)) left := by
  refine exec_of_run (l := [({} : Choice), {}]) ?_ rfl
  exact And.intro (quietly fun h => by cases h) (And.intro (quietly fun h => by cases h) trivial)

theorem life : Life only bare (Supervisor.take {} 10) left
    (Latest.give (fun _ => none) ProcessHandle.startToken (.ok ⟨10, 7⟩)) [(⟨10, 7⟩, 7)]
    [⟨.adopt ⟨10, 7⟩, some (.ok ⟨10, 7⟩)⟩, ⟨.start options, some (.ok ⟨10, 7⟩)⟩] := by
  have hfresh : Life only bare {} bare (fun _ => none) [] [] := .fresh
  have hstarted := Life.call (.start options) hfresh trivial begins
  have hleft : Orphaned begun.2 left := rfl
  exact .call (.adopt ⟨10, 7⟩) (.restart hstarted hleft) List.mem_cons_self adopts

end Sample

/-- The process is a living one on the promised device, too. -/
theorem supervisor_keeps_its_contract_adopted :
    ∃ d, Answered (World.idle .bare "") [⟨.adopt ⟨10, 7⟩, some (.ok ⟨10, 7⟩)⟩,
        ⟨.start Sample.options, some (.ok ⟨10, 7⟩)⟩] d ∧
      ∃ p ∈ d.live, p.handle = ⟨10, 7⟩ := by
  obtain ⟨d, ha, hliving, -⟩ := supervisor_keeps_its_contract Sample.life (World.idle .bare "")
  exact ⟨d, ha, hliving (⟨10, 7⟩, 7) List.mem_cons_self ⟨_, List.mem_cons_self, rfl⟩⟩

end Posix

end Yirang
