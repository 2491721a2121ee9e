/-
# `Yirang.Fleet.Delivery` — a command that was acknowledged is not lost

For each queue of the group the API tells its client the id of the message
that the queue took, or why it took none.  A message with an id stays in its
queue until an agent that consumes the queue is done with it, whatever
becomes of requests and agents meanwhile: an agent that is killed is done
with nothing, and what it has failed at comes again, five times.

    Handled      an agent came to a verdict on a copy, and is done with it
    Tried        the failures that an agent counts are messages it took
    Accounted    nothing leaves a queue but what is deleted by a request or
                 handled
    receipts     the ids that a request was told
    acknowledged_is_handled
                 what a response says of a queue
-/
import Yirang.Fleet.Orders

namespace Yirang.Fleet

open Fs Effect Agent

variable {S : Setup}

/-! ## What an agent is done with -/

/-- How often an agent has begun to handle a message of this text. -/
def State.tries (s : State) (i : Nat) (text : String) : Nat :=
  s.taken.countP fun e => e.1 = i ∧ e.2.body = text

/-- In this run an agent took the copy from its queue, came to a verdict, and
was done with it: what it failed at might not pass, or it was the fifth try. -/
inductive Handled (S : Setup) : State → Nat → Copy → Prop
  | ended {s : State} {i : Nat} {m m₁ m₂ : Memory} {h h₁ h₂ : Host} {done : List Nat}
      {copy : Copy} {v : Verdict} {sent : List (String × String)} : Reachable S s →
      s.members i = ⟨.up m, h, done⟩ → copy ∈ s.net.queues (S.queueUrl i) →
      Exec Agent.answer (fun _ _ _ => True) (dispatch (S.service i) copy.body).run m h
        (.done (.ok v) m₁) h₁ →
      Exec Agent.answer (fun _ _ _ => True) (settle copy.body v).run m₁ h₁ (.done (.ok ()) m₂) h₂ →
      h₂.sent = sent ++ h.sent → (v.transient = true → 4 ≤ s.tries i copy.body) →
      Handled S ((s.take i copy).settled i ⟨.up m₂, h₂, copy.id :: done⟩ sent) i copy
  | later {s s' : State} {i : Nat} {copy : Copy} : Handled S s i copy → Step S s s' →
      Handled S s' i copy

/-! ## Tries -/

section Tries

variable {s : State} {i : Nat} {copy : Copy} {text : String}

theorem tries_take :
    (s.take i copy).tries i text = s.tries i text + if copy.body = text then 1 else 0 := by
  simp [State.tries, State.take, List.countP_cons]

theorem tries_le_take {j : Nat} : s.tries j text ≤ (s.take i copy).tries j text := by
  simp [State.tries, State.take, List.countP_cons]

end Tries

/-- The count of failures is no more than `tries` says of its text. -/
def Within (tries : String → Nat) (m : Memory) : Prop :=
  m.failingAttempts.toNat ≤ tries m.failingMessage

section Within

variable {tries tries' : String → Nat} {m : Memory} {raw : String} {v : Verdict} {h : Host}
  {A : Host → Agent.Op → Agent.Turn → Prop}

theorem Within.mono (hm : Within tries m) (hle : ∀ text, tries text ≤ tries' text) :
    Within tries' m :=
  Nat.le_trans hm (hle _)

theorem within_forget : Within tries m.forgetFailure := Nat.zero_le _

theorem recordFailure_le (hm : Within tries m) :
    (m.recordFailure raw).failingAttempts.toNat ≤ tries raw + 1 := by
  unfold Memory.recordFailure
  split
  · exact Nat.le_add_left 1 _
  · rename_i hraw
    rw [ne_eq, not_not] at hraw
    have hle : m.failingAttempts.toNat ≤ tries raw := hraw ▸ hm
    show (m.failingAttempts + 1).toNat ≤ tries raw + 1
    rw [UInt32.toNat_add, UInt32.toNat_one]
    exact Nat.le_trans (Nat.mod_le _ _) (Nat.add_le_add_right hle 1)

/-- A further try; and one that is settled although it may pass is the fifth. -/
theorem settle_within (hm : Within tries m) :
    wp Agent.answer A Anywhere (settle raw v).run
      (fun ret m' _ => Within (fun text => tries text + if raw = text then 1 else 0) m' ∧
        (ret = .ok () → v.transient = true → 4 ≤ tries raw)) m h := by
  have hforget : v.transient = false →
      wp Agent.answer A Anywhere (do
        let memory ← load
        store memory.forgetFailure : Act agent Memory String Unit).run
        (fun ret m' _ => Within (fun text => tries text + if raw = text then 1 else 0) m' ∧
          (ret = .ok () → v.transient = true → 4 ≤ tries raw)) m h := fun hv =>
    ⟨within_forget, fun _ ht => by
      rw [hv] at ht
      cases ht⟩
  match v, hforget with
  | .ran message (.error reason) false, _ =>
      have hcount : (m.recordFailure raw).failingAttempts.toNat ≤ tries raw + 1 :=
        recordFailure_le hm
      refine wp_load_seq.mpr ?_
      show wp _ _ _ (ExceptT.run (ite _ _ _)) _ _ _
      split
      · rename_i hmax
        have hfive : (5 : UInt32).toNat ≤ (m.recordFailure raw).failingAttempts.toNat := hmax
        exact ⟨within_forget, fun _ _ => Nat.le_of_succ_le_succ (Nat.le_trans hfive hcount)⟩
      · refine ⟨?_, fun he => by cases he⟩
        show _ ≤ tries (m.recordFailure raw).failingMessage +
          if raw = (m.recordFailure raw).failingMessage then 1 else 0
        rw [recordFailure_text, if_pos rfl]
        exact hcount
  | .ran message (.error reason) true, hforget => exact hforget rfl
  | .ran message (.ok u) final, hforget => exact hforget rfl
  | .unparsed reason, hforget => exact hforget rfl
  | .misrouted message reason, hforget => exact hforget rfl
  | .unknown message reason, hforget => exact hforget rfl

end Within

/-- Every failure that an agent counts is of a message it took. -/
def Tried (s : State) : Prop :=
  ∀ i m, (s.members i).phase = .up m → Within (s.tries i) m

namespace Tried

variable {s s' : State} {i : Nat}

theorem settled (h : Tried s) {member : Member} {sent : List (String × String)}
    (hm : ∀ m, member.phase = .up m → Within (s.tries i) m) : Tried (s.settled i member sent) := by
  intro j m hj
  by_cases hi : j = i
  · subst hi
    simp only [State.settled, Function.update_self] at hj
    exact hm m hj
  · simp only [State.settled, Function.update_of_ne hi] at hj
    exact h j m hj

theorem take (h : Tried s) {copy : Copy} : Tried (s.take i copy) := fun j m hj =>
  (h j m hj).mono fun _ => tries_le_take

theorem step (h : Tried s) (hs : Step S s s') : Tried s' := by
  cases hs with
  | request r => exact h
  | turn ht => exact h
  | arrive url body => exact h
  | land _ _ _ => exact h
  | lose _ _ _ => exact h
  | boot i _ _ hran =>
      refine h.settled fun m hm => ?_
      cases hm
      show _ ≤ _
      rw [(boot_blank hran.1).2]
      exact Nat.zero_le _
  | bootKilled i _ _ _ => exact h.settled fun m hm => by cases hm
  | handle i copy _ hup _ hran =>
      refine h.take.settled fun m hm => ?_
      cases hm
      have hbefore : ∀ {m₁ : Memory}, Counting _ _ m₁ → Within (s.tries i) m₁ := fun hcount => by
        have hm := h i _ (by rw [hup])
        rw [Within, hcount.1, hcount.2]
        exact hm
      rcases exec_handle.mp hran.1 with ⟨v, m₁, h₁, hd, hset⟩ | ⟨what, -, hd⟩
      · have hcount := (wp_done hd dispatch_spec).1
        refine (wp_done hset (settle_within (hbefore hcount))).1.mono fun text => ?_
        rw [tries_take]
      · have hcount := (wp_done hd dispatch_spec).1
        exact (hbefore hcount).mono fun _ => tries_le_take
  | killed i _ _ _ _ _ => exact h.take.settled fun m hm => by cases hm
  | exit i _ => exact h.settled fun m hm => by cases hm
  | finish i _ => exact h
  | device i w => exact h.settled fun m hm => h i m hm

end Tried

theorem Reachable.tried {s : State} (hr : Reachable S s) : Tried s := by
  induction hr with
  | start hosts => exact fun i m hm => by cases hm
  | step _ hs ih => exact ih.step hs

/-! ## What leaves a queue -/

namespace Network

/-- The id of a copy is how many were put in queues before it. -/
def Numbered (net : Network) : Prop :=
  (net.log.map fun e => e.2.id) = (List.range net.log.length).reverse

/-- What was put in a queue is there, unless a request deleted it or `R` says
what became of it. -/
def Keeps (net : Network) (R : String → Copy → Prop) : Prop :=
  ∀ url copy, (url, copy) ∈ net.log →
    copy ∈ net.queues url ∨ (∃ n, (n, copy) ∈ net.deleted) ∨ R url copy

variable {net : Network} {url body : String} {origin : Origin} {R R' : String → Copy → Prop}

namespace Numbered

theorem put (h : net.Numbered) : (net.put url body origin).Numbered := by
  show _ :: net.log.map (fun e => e.2.id) = (List.range (net.log.length + 1)).reverse
  rw [h, List.range_succ, List.reverse_append]
  rfl

/-- No two copies have one id. -/
theorem same (h : net.Numbered) {e e' : String × Copy} (he : e ∈ net.log) (he' : e' ∈ net.log)
    (hid : e.2.id = e'.2.id) : e = e' := by
  have hnd : (net.log.map fun e => e.2.id).Nodup := by
    rw [h]
    exact List.nodup_reverse.mpr List.nodup_range
  exact List.inj_on_of_nodup_map hnd he he' hid

theorem answered (h : net.Numbered) {serving : Serving} {c : Turn} {o : Api.Op} :
    (answer serving c o net).2.Numbered := by
  cases o with
  | send url body =>
      rcases answer_send serving c net with he | he <;> rw [he]
      · exact h.put
      · exact h
  | receive url max wait =>
      rw [answer_receive]
      exact h
  | delete url messages => exact h
  | interleaving n => exact h
  | respond status response =>
      rcases answer_respond serving c net with he | he <;> rw [he] <;> exact h

end Numbered

namespace Keeps

theorem mono (h : net.Keeps R) (hR : ∀ url copy, R url copy → R' url copy) : net.Keeps R' :=
  fun url copy hl => (h url copy hl).imp_right (Or.imp_right (hR url copy))

theorem put (h : net.Keeps R) : (net.put url body origin).Keeps R := by
  intro url' copy hl
  rcases List.mem_cons.mp hl with he | hl
  · cases he
    refine .inl ?_
    simp [Network.put]
  · refine (h url' copy hl).imp_left fun hq => ?_
    by_cases hu : url' = url
    · subst hu
      simp [Network.put, hq]
    · simpa [Network.put, Function.update_of_ne hu] using hq

/-- What is taken away is accounted for. -/
theorem remove (h : net.Keeps R) {gone : Copy → Bool} {deleted : List (Nat × Copy)}
    (hd : net.deleted ⊆ deleted)
    (hg : ∀ copy ∈ net.queues url, gone copy = true → (url, copy) ∈ net.log →
      (∃ n, (n, copy) ∈ deleted) ∨ R url copy) :
    ({ net.remove url gone with deleted } : Network).Keeps R := by
  intro url' copy hl
  rcases h url' copy hl with hq | ⟨n, hn⟩ | hr
  · by_cases hu : url' = url
    · subst hu
      cases hgone : gone copy with
      | true => exact .inr (hg copy hq hgone hl)
      | false =>
          refine .inl ?_
          simp only [Network.remove, Function.update_self]
          exact List.mem_filter.mpr ⟨hq, by rw [hgone]; rfl⟩
    · refine .inl ?_
      simpa only [Network.remove, Function.update_of_ne hu] using hq
  · exact .inr (.inl ⟨n, hd hn⟩)
  · exact .inr (.inr hr)

theorem answered (h : net.Keeps R) {serving : Serving} {c : Turn} {o : Api.Op} :
    (answer serving c o net).2.Keeps R := by
  cases o with
  | send url body =>
      rcases answer_send serving c net with he | he <;> rw [he]
      · exact h.put
      · exact h
  | receive url max wait =>
      rw [answer_receive]
      exact h
  | delete url messages =>
      refine h.remove (List.subset_append_right _ _) fun copy hq hgone _ => .inl ⟨serving.number, ?_⟩
      exact List.mem_append_left _ (List.mem_map_of_mem (List.mem_filter.mpr ⟨hq, hgone⟩))
  | interleaving n => exact h
  | respond status response =>
      rcases answer_respond serving c net with he | he <;> rw [he] <;> exact h

end Keeps

end Network

/-- An agent that consumes the queue has handled the copy. -/
def State.Consumed (S : Setup) (s : State) (url : String) (copy : Copy) : Prop :=
  ∃ i, S.queueUrl i = url ∧ Handled S s i copy

structure Accounted (S : Setup) (s : State) : Prop where
  numbered : s.net.Numbered
  done : ∀ i, ∀ id ∈ (s.members i).done,
    ∃ copy, copy.id = id ∧ (S.queueUrl i, copy) ∈ s.net.log ∧ Handled S s i copy
  kept : s.net.Keeps (s.Consumed S)

namespace Accounted

variable {s s' : State} {i : Nat}

/-- What the network has taken in is still accounted for. -/
theorem network (h : Accounted S s) (hs : Step S s s') (hmembers : s'.members = s.members)
    (hnum : s'.net.Numbered) (hlog : s.net.log ⊆ s'.net.log)
    (hkept : s'.net.Keeps (s.Consumed S)) : Accounted S s' where
  numbered := hnum
  done j id hid := by
    rw [hmembers] at hid
    obtain ⟨copy, he, hl, hh⟩ := h.done j id hid
    exact ⟨copy, he, hlog hl, hh.later hs⟩
  kept := hkept.mono fun _ _ ⟨j, hj, hh⟩ => ⟨j, hj, hh.later hs⟩

/-- An agent is done with nothing but what it was done with before. -/
theorem member (h : Accounted S s) (hs : Step S s s') (hnet : s'.net = s.net)
    (hdone : ∀ j, (s'.members j).done ⊆ (s.members j).done) : Accounted S s' where
  numbered := hnet ▸ h.numbered
  done j id hid := by
    obtain ⟨copy, he, hl, hh⟩ := h.done j id (hdone j hid)
    exact ⟨copy, he, hnet ▸ hl, hh.later hs⟩
  kept := by
    rw [hnet]
    exact h.kept.mono fun _ _ ⟨j, hj, hh⟩ => ⟨j, hj, hh.later hs⟩

theorem settled_done {s : State} {member : Member} {sent : List (String × String)}
    (hdone : member.done ⊆ (s.members i).done) (j : Nat) :
    ((s.settled i member sent).members j).done ⊆ (s.members j).done := by
  by_cases hj : j = i
  · subst hj
    simpa only [State.settled, Function.update_self] using hdone
  · simp only [State.settled, Function.update_of_ne hj]
    exact List.Subset.refl _

theorem step (h : Accounted S s) (hr : Reachable S s) (hs : Step S s s') : Accounted S s' := by
  cases id hs with
  | request r => exact h.network hs rfl h.numbered (List.Subset.refl _) h.kept
  | @turn requests net ht =>
      obtain ⟨hnum, hkept, hlog⟩ := ht.preserves
        (P := fun net => net.Numbered ∧ net.Keeps (s.Consumed S) ∧ net.Logged ∧
          ∀ e ∈ s.net.log, e ∈ net.log)
        (fun _ _ _ _ h => ⟨h.1.answered, h.2.1.answered, h.2.2.1.answered.1, fun e he =>
          h.2.2.1.answered.2 e (h.2.2.2 e he)⟩)
        ⟨h.numbered, h.kept, hr.logged.queued, fun _ he => he⟩
      exact h.network hs rfl hnum hlog.2 hkept
  | arrive url body =>
      exact h.network hs rfl h.numbered.put (List.subset_cons_self _ _) h.kept.put
  | land _ _ _ =>
      exact h.network hs rfl h.numbered.put (List.subset_cons_self _ _) h.kept.put
  | lose _ _ _ => exact h.network hs rfl h.numbered (List.Subset.refl _) h.kept
  | boot i _ _ _ => exact h.member hs rfl (settled_done (List.nil_subset _))
  | bootKilled i _ _ _ => exact h.member hs rfl (settled_done (List.nil_subset _))
  | @handle i h₀ h' done m m' ret copy sent hup hq hran =>
      cases ret with
      | error e =>
          refine h.member hs rfl (settled_done ?_)
          show done ⊆ (s.members i).done
          rw [hup]
          exact List.Subset.refl _
      | ok u =>
          obtain ⟨v, m₁, h₁, hd, hset⟩ := exec_handle_ok.mp hran.1
          have hcount := (wp_done hd dispatch_spec).1
          have hbefore : Within (s.tries i) m₁ := by
            have hm := hr.tried i _ (by rw [hup])
            rw [Within, hcount.1, hcount.2]
            exact hm
          have hfour := (wp_done hset (settle_within hbefore)).2 rfl
          have hended := Handled.ended hr hup hq hd hset hran.2 hfour
          refine ⟨h.numbered, fun j id hid => ?_, ?_⟩
          · by_cases hj : j = i
            · subst hj
              simp only [State.settled, Function.update_self] at hid
              rcases List.mem_cons.mp hid with rfl | hid
              · exact ⟨copy, rfl, hr.logged.queued _ _ hq, hended⟩
              · obtain ⟨copy', he, hl, hh⟩ := h.done j id (by rw [hup]; exact hid)
                exact ⟨copy', he, hl, hh.later hs⟩
            · simp only [State.settled, Function.update_of_ne hj] at hid
              obtain ⟨copy', he, hl, hh⟩ := h.done j id hid
              exact ⟨copy', he, hl, hh.later hs⟩
          · exact h.kept.mono fun _ _ ⟨j, hj, hh⟩ => ⟨j, hj, hh.later hs⟩
  | killed i _ _ _ _ _ => exact h.member hs rfl (settled_done (List.nil_subset _))
  | exit i _ => exact h.member hs rfl (settled_done (List.nil_subset _))
  | @finish i id hid =>
      obtain ⟨copy, he, hl, hh⟩ := h.done i id hid
      refine h.network hs rfl h.numbered (List.Subset.refl _) ?_
      refine h.kept.remove (List.Subset.refl _) fun copy' _ hgone hl' => .inr ?_
      -- the copy with this id is the one that was handled
      have hsame := h.numbered.same hl' hl ((of_decide_eq_true hgone).trans he.symm)
      cases hsame
      exact ⟨i, rfl, hh⟩
  | device i w => exact h.member hs rfl (settled_done (List.Subset.refl _))

end Accounted

theorem Reachable.accounted {s : State} (hr : Reachable S s) : Accounted S s := by
  induction hr with
  | start hosts =>
      exact ⟨rfl, fun i id hid => (by cases hid), fun _ _ hl => by cases hl⟩
  | step hr hs ih => exact ih.step hr hs

/-! ## What a response says -/

/-- What is said of deliveries is what `told` says of a queue and an id. -/
def Warranted (told : String → String → Prop) (deliveries : List Api.Delivery) : Prop :=
  ∀ d ∈ deliveries, d.messageId ≠ "" → told d.queueUrl d.messageId

/-- The ids a request was told, with their queues. -/
def receipts : Monitor cloud (List (String × String)) where
  note
    | .send url _, .ok messageId, told => (url, messageId) :: told
    | _, _, told => told
  passes
    | told, .respond _ (.published result) =>
        Warranted (fun url messageId => (url, messageId) ∈ told) result.deliveries
    | _, _ => True
  expects _ _ := True

section Receipts

variable {told : List (String × String)}

abbrev Told (told : List (String × String)) (url messageId : String) : Prop :=
  (url, messageId) ∈ told

theorem sends_told {body : String} {targets : List Api.DeviceQueue} :
    ∀ {order : List Nat} {deliveries : List Api.Delivery} {told : List (String × String)},
      Warranted (Told told) deliveries →
      receipts.Follows (Api.sends body targets order deliveries).run
        (fun r told => ∃ ds, r = .ok ds ∧ Warranted (Told told) ds) () told
  | [], _, _, hw => ⟨_, rfl, hw⟩
  | index :: rest, deliveries, told, hw => by
      unfold Api.sends
      cases htarget : targets[index]? with
      | none => exact sends_told hw
      | some target =>
          refine wp_seq.mpr ⟨trivial, fun c _ => ?_⟩
          show wp _ _ _ _ _ () (receipts.note (.send target.url body)
            (receipts.answers c (.send target.url body) told).1 told)
          generalize (receipts.answers c (.send target.url body) told).1 = sent
          cases (sent : Except String String) with
          | ok messageId =>
              refine sends_told fun d hd hid => ?_
              rcases List.mem_or_eq_of_mem_set hd with hd | rfl
              · exact List.mem_cons_of_mem _ (hw d hd hid)
              · exact List.mem_cons_self
          | error e =>
              refine sends_told fun d hd hid => ?_
              rcases List.mem_or_eq_of_mem_set hd with hd | rfl
              · exact hw d hd hid
              · exact absurd rfl hid

theorem publish_told {cfg : Api.Config} {codec : Codec} {command group : String} {payload : Json} :
    receipts.Follows (Api.publish cfg codec command group payload).run
      (fun r told => ∀ result, r = .ok result → Warranted (Told told) result.deliveries) ()
      told := by
  unfold Api.publish
  refine wp_require_seq.mpr ?_
  split
  · refine wp_seq.mpr ⟨trivial, fun c _ => ?_⟩
    refine wp_seq_of (sends_told fun d hd hid => ?_) ?_ ?_
    · obtain ⟨target, -, rfl⟩ := List.mem_map.mp hd
      exact absurd rfl hid
    · rintro deliveries - told ⟨ds, he, hw⟩
      cases he
      refine wp_require_seq.mpr ?_
      split
      · intro result he
        cases he
        exact hw
      · exact fun result he => by cases he
    · rintro e - told ⟨ds, he, -⟩
      cases he
  · exact fun result he => by cases he

theorem answerWith_told {part : Api.Task Api.PublishResult} {status : Nat}
    (h : receipts.Follows part.run
      (fun r told => ∀ result, r = .ok result → Warranted (Told told) result.deliveries) () told) :
    receipts.Follows (Api.answerWith status .published part).run
      (fun _ _ => True) () told := by
  refine wp_seq.mpr (wp_attempt.mpr (wp_conseq h ?_))
  rintro (e | result) - told hr
  · exact wp_seq.mpr ⟨trivial, fun _ _ => trivial⟩
  · exact wp_seq.mpr ⟨hr result rfl, fun _ _ => trivial⟩

theorem results_told {cfg : Api.Config} {codec : Codec} {status : Nat} :
    receipts.Follows (Api.answerWith status .batch (Api.results cfg codec)).run
      (fun _ _ => True) () told := by
  have hpart : receipts.Follows (Api.results cfg codec).run (fun _ _ => True) () told := by
    refine wp_require_seq.mpr ?_
    split
    · refine wp_seq.mpr (wp_orFail.mpr ⟨trivial, fun c _ => ?_⟩)
      show settled _ _ (.ok (c (.receive cfg.resultQueueUrl cfg.resultBatchSize
        cfg.resultWaitSeconds))) () told
      cases c (.receive cfg.resultQueueUrl cfg.resultBatchSize cfg.resultWaitSeconds) with
      | error e => trivial
      | ok messages =>
          refine wp_seq.mpr ?_
          unfold Api.acknowledge
          split
          · trivial
          · exact ⟨trivial, fun _ _ => trivial⟩
    · trivial
  refine wp_seq.mpr (wp_attempt.mpr (wp_conseq hpart ?_))
  rintro (e | batch) - told -
  · exact wp_seq.mpr ⟨trivial, fun _ _ => trivial⟩
  · exact wp_seq.mpr ⟨trivial, fun _ _ => trivial⟩

/-- A request claims no id that it was not told. -/
theorem serve_told (cfg : Api.Config) (codec : Codec) (r : Api.Request) :
    receipts.Follows (Api.serve cfg codec r).run (fun _ _ => True) () told := by
  cases r with
  | deploy r =>
      refine answerWith_told ?_
      unfold Api.deploy
      cases Api.downloadPayload r.releaseId r.artifacts with
      | error e => exact fun result he => by cases he
      | ok payload => exact publish_told
  | command r =>
      refine answerWith_told (wp_require_seq.mpr ?_)
      split
      · cases Api.commandPayload r.command (r.payload.getD (.object [])) with
        | error e => exact fun result he => by cases he
        | ok payload => exact publish_told
      · exact fun result he => by cases he
  | results => exact results_told

end Receipts

/-- A queue took a message of the request, and gave it this id. -/
def Network.Took (net : Network) (n : Nat) (url messageId : String) : Prop :=
  ∃ copy, (url, copy) ∈ net.log ∧ copy.origin.request? = some n ∧ toString copy.id = messageId

theorem Network.Took.mono {net net' : Network} {n : Nat} {url messageId : String}
    (h : net.Took n url messageId) (hl : net.log ⊆ net'.log) : net'.Took n url messageId := by
  obtain ⟨copy, hm, hrest⟩ := h
  exact ⟨copy, hl hm, hrest⟩

/-- Every id in a response is that of a message. -/
def Network.Warrants (net : Network) : Prop :=
  ∀ n result, (n, .published result) ∈ net.written → Warranted (net.Took n) result.deliveries

/-- What a request was told is true. -/
def Truly (serving : Serving) (told : List (String × String)) (net : Network) : Prop :=
  ∀ url messageId, Told told url messageId → net.Took serving.number url messageId

theorem Truly.mono {serving : Serving} {told : List (String × String)} {net net' : Network}
    (h : Truly serving told net) (hl : net.log ⊆ net'.log) : Truly serving told net' :=
  fun url messageId ht => (h url messageId ht).mono hl

theorem log_answered {serving : Serving} {c : Turn} {o : Api.Op} {net : Network} :
    net.log ⊆ (answer serving c o net).2.log := by
  cases o with
  | send url body =>
      rcases answer_send serving c net with he | he <;> rw [he]
      · exact List.subset_cons_self _ _
      · exact List.Subset.refl _
  | receive url max wait =>
      rw [answer_receive]
      exact List.Subset.refl _
  | delete url messages => exact List.Subset.refl _
  | interleaving n => exact List.Subset.refl _
  | respond status response =>
      rcases answer_respond serving c net with he | he <;> rw [he] <;> exact List.Subset.refl _

theorem told_guarded : Guarded answer (fun _ _ _ _ => True) (fun _ => receipts) Serving.number
    Network.Warrants Truly where
  expected _ _ _ _ := trivial
  world {serving told net o c} hw ht hp _ := by
    have hold : ∀ n result, (n, .published result) ∈ net.written →
        Warranted ((answer serving c o net).2.Took n) result.deliveries :=
      fun n result hm d hd hid => (hw n result hm d hd hid).mono log_answered
    intro n result hm
    cases o with
    | send url body =>
        rcases answer_send serving c net with he | he <;> rw [he] at hm <;> exact hold n result hm
    | receive url max wait =>
        rw [answer_receive] at hm
        exact hold n result hm
    | delete url messages => exact hold n result hm
    | interleaving _ => exact hold n result hm
    | respond status response =>
        rcases answer_respond serving c net with he | he <;> rw [he] at hm
        · rcases List.mem_cons.mp hm with he' | hm
          · -- the response of this request
            cases he'
            exact fun d hd hid => (ht _ _ (hp d hd hid)).mono log_answered
          · exact hold n result hm
        · exact hold n result hm
  own {serving told net o c} hw ht hp _ := by
    have hold : Truly serving told (answer serving c o net).2 := ht.mono log_answered
    cases o with
    | send url body =>
        simp only [answer] at hold ⊢
        cases hf : c.fault with
        | none =>
            rw [hf] at hold
            intro url' messageId hm
            rcases List.mem_cons.mp hm with he | hm
            · cases he
              exact ⟨_, List.mem_cons_self, rfl, rfl⟩
            · exact hold url' messageId hm
        | some e =>
            rw [hf] at hold
            exact hold
    | receive url max wait => exact hold
    | delete url messages => exact hold
    | interleaving _ => exact hold
    | respond status response => exact hold
  others _ _ _ _ _ ht := ht.mono log_answered

structure Receipted (s : State) : Prop where
  net : s.net.Warrants
  watched : ∀ t ∈ s.requests, t.Watched (fun _ => receipts) Truly (fun _ _ => True) s.net

namespace Receipted

variable {s s' : State}

/-- Nobody but a request writes a response. -/
theorem network (h : Receipted s) (hrequests : s'.requests = s.requests)
    (hwritten : s'.net.written = s.net.written) (hl : s.net.log ⊆ s'.net.log) : Receipted s' where
  net n result hm d hd hid := (h.net n result (hwritten ▸ hm) d hd hid).mono hl
  watched t ht := by
    obtain ⟨told, htr, hf⟩ := h.watched t (hrequests ▸ ht)
    exact ⟨told, htr.mono hl, hf⟩

theorem step (hn : (s.requests.map fun t => t.owner.number).Nodup) (h : Receipted s)
    (hs : Step S s s') : Receipted s' := by
  cases hs with
  | request r =>
      refine ⟨h.net, fun t ht => ?_⟩
      rcases List.mem_append.mp ht with ht | ht
      · exact h.watched t ht
      · rw [List.mem_singleton] at ht
        subst ht
        exact ⟨[], fun _ _ hm => (by cases hm), serve_told S.api S.apiCodec r⟩
  | turn ht =>
      obtain ⟨hnet, hwatched⟩ := told_guarded.step h.net h.watched hn ht
      exact ⟨hnet, hwatched⟩
  | arrive url body => exact h.network rfl rfl (List.subset_cons_self _ _)
  | land _ _ _ => exact h.network rfl rfl (List.subset_cons_self _ _)
  | lose _ _ _ => exact h.network rfl rfl (List.Subset.refl _)
  | boot i _ _ _ => exact h.network rfl rfl (List.Subset.refl _)
  | bootKilled i _ _ _ => exact h.network rfl rfl (List.Subset.refl _)
  | handle i _ _ _ _ _ => exact h.network rfl rfl (List.Subset.refl _)
  | killed i _ _ _ _ _ => exact h.network rfl rfl (List.Subset.refl _)
  | exit i _ => exact h.network rfl rfl (List.Subset.refl _)
  | finish i _ => exact h.network rfl rfl (List.Subset.refl _)
  | device i w => exact h.network rfl rfl (List.Subset.refl _)

end Receipted

theorem Reachable.receipted (hv : S.api.Valid) {s : State} (hr : Reachable S s) :
    Receipted s := by
  induction hr with
  | start hosts => exact ⟨fun _ _ hm => (by cases hm), fun _ hm => by cases hm⟩
  | step hr hs ih =>
      refine ih.step ?_ hs
      rw [(hr.sound hv).numbers]
      exact List.nodup_range

/-! ## From the response to the device -/

/-- Whatever becomes of requests and agents: for every id in a response that
was written, the queue took the command that was asked for, and has it still,
unless an agent that consumes it is done with it. -/
theorem acknowledged_is_handled (hv : S.api.validate = .ok ()) {s : State} (hr : Reachable S s)
    {n : Nat} {result : Api.PublishResult} (hw : (n, .published result) ∈ s.net.written)
    {d : Api.Delivery} (hd : d ∈ result.deliveries) (hid : d.messageId ≠ "") :
    ∃ serving ∈ s.requests.map Thread.owner, ∃ copy, serving.number = n ∧
      copy.origin = serving.origin ∧ toString copy.id = d.messageId ∧
      Asked S serving.request (.send d.queueUrl copy.body) ∧
      (copy ∈ s.net.queues d.queueUrl ∨ s.Consumed S d.queueUrl copy) := by
  have hvalid := Api.Config.valid_of_validate hv
  obtain ⟨copy, hl, ho, hnumber⟩ := (hr.receipted hvalid).net n result hw d hd hid
  obtain ⟨id, body, origin⟩ := copy
  cases origin with
  | reported i => cases ho
  | other => cases ho
  | published m group =>
      cases ho
      obtain ⟨serving, hs, hm, hgroup, hasked⟩ := hr.posted.log _ _ n group hl rfl
      refine ⟨serving, hs, _, hm, ?_, hnumber, hasked, ?_⟩
      · rw [Serving.origin, hm, hgroup]
      · rcases hr.accounted.kept _ _ hl with hq | ⟨k, hk⟩ | hc
        · exact .inl hq
        · -- no request deletes what another has published
          exact absurd rfl ((hr.sound hvalid).spares hvalid hk)
        · exact .inr hc

namespace Sample

/-- The restart is taken, fails for good, and is deleted. -/
theorem restart_finished : ∃ s result, Reachable setup s ∧
    (0, .published result) ∈ s.net.written ∧ s.net.queues "commands" = [] ∧
    (⟨"first", "commands", "0", ""⟩ : Api.Delivery) ∈ result.deliveries := by
  have h₁ := Reachable.step (.start fun _ => Agent.Sample.host)
    (.request (S := setup) restart.request)
  have hserve := exec_freely (answer restart)
    (Api.serve api library restart.request).run [{}, {}, {}] () {} rfl
  have h₂ := h₁.served [] [] rfl hserve
  have hboot := exec_freely Agent.answer (setup.service 0).service.boot []
    (setup.service 0).service.fresh Agent.Sample.host rfl
  have h₃ := h₂.step (.boot 0 [] rfl ⟨hboot, rfl⟩)
  have hhandle := exec_freely Agent.answer ((setup.service 0).service.serve "restart") [{}]
    {} Agent.Sample.host rfl
  have h₄ := h₃.step (.handle 0 ⟨0, "restart", restart.origin⟩ [("results", "")] rfl
    (by decide +kernel) ⟨hhandle, by decide +kernel⟩)
  have h₅ := h₄.step (.finish 0 (show 0 ∈ _ by decide +kernel))
  exact ⟨_, _, h₅, List.mem_cons_self, by decide +kernel, by decide +kernel⟩

end Sample

/-- The message is gone because an agent was done with it. -/
theorem acknowledged_is_handled_restart : ∃ s copy, Reachable Sample.setup s ∧
    toString copy.id = "0" ∧ s.net.queues "commands" = [] ∧
    s.Consumed Sample.setup "commands" copy := by
  obtain ⟨s, result, hr, hw, hempty, hd⟩ := Sample.restart_finished
  obtain ⟨_, -, copy, -, -, hid, -, hq | hc⟩ := acknowledged_is_handled rfl hr hw hd (by decide)
  · rw [hempty] at hq
    cases hq
  · exact ⟨s, copy, hr, hid, hempty, hc⟩

end Yirang.Fleet
