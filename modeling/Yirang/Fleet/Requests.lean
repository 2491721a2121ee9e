/-
# `Yirang.Fleet.Requests` — what the requests do to the queues

The API serves any number of requests at a time.  What one of them does is
followed by a monitor: it sends its message once to each queue of its group,
and it deletes only what it received and is about to hand over.

    Watch        what the monitor of a request keeps in mind
    serve_follows
                 every request makes only calls that its monitor passes
    Kept         what holds of the network
    Tracks       how the network and the monitor of a request agree
    Sound        the invariant of the fleet, made of these
-/
import Yirang.Fleet.Model

namespace Yirang.Fleet

open Fs Effect

variable {S : Setup}

/-! ## The monitor of a request -/

structure Watch where
  /-- The queues that nothing was sent to yet. -/
  todo : List String
  received : List Api.Message := []
  replied : Bool := false

/-- The text is a command of the API for this group. -/
def Setup.Commands (S : Setup) (group body : String) : Prop :=
  ∃ command payload, body = Api.body S.api S.apiCodec command group payload

def monitor (S : Setup) (serving : Serving) : Monitor cloud Watch where
  note
    | .send url _, _, s => { s with todo := s.todo.erase url }
    | .receive _ _ _, .ok messages, s => { s with received := messages }
    | .respond _ _, _, s => { s with replied := true }
    | _, _, s => s
  passes
    | s, .send url body => url ∈ s.todo ∧ S.Commands serving.request.group body
    | s, .receive _ _ _ => s.received = [] ∧ s.replied = false
    | s, .delete url messages =>
        url = S.api.resultQueueUrl ∧ url ≠ "" ∧ messages = s.received
    | _, .interleaving _ => True
    | s, .respond _ response =>
        s.received = [] ∨ response = .batch (Api.batchOf S.apiCodec s.received)
  expects
    | .interleaving n, order => (order : List Nat).Nodup ∧ ∀ i ∈ order, i < n
    | _, _ => True

/-- The queues a request sends to. -/
def Setup.targets (S : Setup) : Api.Request → List Api.DeviceQueue
  | .results => []
  | r => S.api.queuesForGroup r.group

def Setup.watch (S : Setup) (r : Api.Request) : Watch :=
  { todo := (S.targets r).map Api.DeviceQueue.url }

section Follows

variable {serving : Serving}

/-- The sends of a publish: what is left of the order is still to be sent
to. -/
theorem sends_follows {body : String} {targets : List Api.DeviceQueue}
    (hb : S.Commands serving.request.group body)
    (hnd : (targets.map Api.DeviceQueue.url).Nodup) :
    ∀ {order : List Nat} {deliveries : List Api.Delivery} {s : Watch}, order.Nodup →
      s.received = [] → s.replied = false →
      (∀ i ∈ order, ∀ target, targets[i]? = some target → target.url ∈ s.todo) →
      (monitor S serving).Follows (Api.sends body targets order deliveries).run
        (fun r s' => s'.received = [] ∧ s'.replied = false ∧ ∃ ds, r = .ok ds) () s
  | [], _, _, _, hr, hp, _ => ⟨hr, hp, _, rfl⟩
  | i :: rest, deliveries, s, ho, hr, hp, ht => by
      rw [List.nodup_cons] at ho
      unfold Api.sends
      cases hi : targets[i]? with
      | none =>
          exact sends_follows hb hnd ho.2 hr hp fun j hj => ht j (List.mem_cons_of_mem _ hj)
      | some target =>
          refine wp_seq.mpr ⟨⟨ht i List.mem_cons_self target hi, hb⟩, fun c _ => ?_⟩
          refine sends_follows hb hnd ho.2 hr hp fun j hj other hother => ?_
          -- another target has another queue
          refine (List.mem_erase_of_ne fun he => ?_).mpr
            (ht j (List.mem_cons_of_mem _ hj) other hother)
          have hlt : j < (targets.map Api.DeviceQueue.url).length := by
            simpa using (List.getElem?_eq_some_iff.mp hother).1
          have hij : j = i := (List.getElem?_inj hlt hnd).mp (by simp [hi, hother, he])
          exact ho.1 (hij ▸ hj)

theorem publish_follows (serving : Serving) (hv : S.api.Valid) {command : String} {payload : Json} :
    (monitor S serving).Follows
      (Api.publish S.api S.apiCodec command serving.request.group payload).run
      (fun _ s => s.received = [] ∧ s.replied = false) ()
      { todo := (S.api.queuesForGroup serving.request.group).map Api.DeviceQueue.url } := by
  have hnd : ((S.api.queuesForGroup serving.request.group).map Api.DeviceQueue.url).Nodup :=
    hv.urls.sublist ((S.api.queuesForGroup_sublist _).map _)
  unfold Api.publish
  refine wp_require_seq.mpr ?_
  split
  · refine wp_seq.mpr ⟨trivial, fun c hc => ?_⟩
    refine wp_seq_of (sends_follows ⟨command, payload, rfl⟩ hnd hc.1 rfl rfl ?_) ?_ ?_
    · exact fun i _ target ht => List.mem_map_of_mem (List.mem_of_getElem? ht)
    · rintro ds - s ⟨hr, hp, -⟩
      refine wp_require_seq.mpr ?_
      split
      · exact ⟨hr, hp⟩
      · exact ⟨hr, hp⟩
    · rintro e - s ⟨hr, hp, -⟩
      exact ⟨hr, hp⟩
  · exact ⟨rfl, rfl⟩

/-- What is asked for is checked before anything is sent. -/
theorem conclude_follows {α β : Type} {x : Except Api.ApiError α} {f : α → Api.Task β}
    {s : Watch} {P : Watch → Prop} (hs : P s)
    (hf : ∀ a, (monitor S serving).Follows (f a).run (fun _ s => P s) () s) :
    (monitor S serving).Follows (conclude x >>= f).run (fun _ s => P s) () s := by
  cases x with
  | error e => exact hs
  | ok a => exact hf a

/-- A request ends with its response. -/
theorem answerWith_follows {α : Type} {status : Nat} {wrap : α → Api.Response} {part : Api.Task α}
    {s : Watch}
    (h : (monitor S serving).Follows part.run (fun r s => s.replied = false ∧
      (s.received = [] ∨
        ∃ a, r = .ok a ∧ wrap a = .batch (Api.batchOf S.apiCodec s.received))) () s) :
    (monitor S serving).Follows (Api.answerWith status wrap part).run
      (fun _ s => s.replied = true) () s := by
  refine wp_seq.mpr (wp_attempt.mpr (wp_conseq h ?_))
  rintro (e | a) - s ⟨-, hr⟩
  · refine wp_seq.mpr ⟨.inl ?_, fun c _ => rfl⟩
    rcases hr with hr | ⟨a, ha, -⟩
    · exact hr
    · cases ha
  · refine wp_seq.mpr ⟨hr.imp_right ?_, fun c _ => rfl⟩
    rintro ⟨b, hb, hw⟩
    cases hb
    exact hw

theorem results_follows :
    (monitor S serving).Follows (Api.results S.api S.apiCodec).run
      (fun r s => s.replied = false ∧ (s.received = [] ∨
        ∃ a, r = .ok a ∧ Api.Response.batch a = .batch (Api.batchOf S.apiCodec s.received)))
      () { todo := [] } := by
  refine wp_require_seq.mpr ?_
  split
  · rename_i hq
    refine wp_seq.mpr (wp_orFail.mpr ⟨⟨rfl, rfl⟩, fun c _ => ?_⟩)
    show settled _ _ (.ok (c (.receive S.api.resultQueueUrl S.api.resultBatchSize
      S.api.resultWaitSeconds))) () ((monitor S serving).note (.receive S.api.resultQueueUrl
        S.api.resultBatchSize S.api.resultWaitSeconds) (c _) _)
    cases c (.receive S.api.resultQueueUrl S.api.resultBatchSize S.api.resultWaitSeconds) with
    | error e => exact ⟨rfl, .inl rfl⟩
    | ok messages =>
        refine wp_seq.mpr ?_
        unfold Api.acknowledge
        split
        · exact ⟨rfl, .inr ⟨_, rfl, rfl⟩⟩
        · exact ⟨⟨rfl, by simpa using hq, rfl⟩, fun c' _ => ⟨rfl, .inr ⟨_, rfl, rfl⟩⟩⟩
  · exact ⟨rfl, .inl rfl⟩

/-- Every request makes only calls that pass, and ends with a response. -/
theorem serve_follows (hv : S.api.Valid) (serving : Serving) :
    (monitor S serving).Follows (Api.serve S.api S.apiCodec serving.request).run
      (fun _ s => s.replied = true) () (S.watch serving.request) := by
  have hpublish : ∀ {r : Except Api.ApiError Api.PublishResult} {s : Watch},
      s.received = [] ∧ s.replied = false → s.replied = false ∧ (s.received = [] ∨
        ∃ a, r = .ok a ∧
          Api.Response.published a = .batch (Api.batchOf S.apiCodec s.received)) :=
    fun h => ⟨h.2, .inl h.1⟩
  obtain ⟨n, r⟩ := serving
  cases r with
  | deploy r =>
      refine answerWith_follows (wp_conseq ?_ fun _ _ _ h => hpublish h)
      exact conclude_follows ⟨rfl, rfl⟩ fun _ => publish_follows ⟨n, .deploy r⟩ hv
  | command r =>
      refine answerWith_follows (wp_conseq ?_ fun _ _ _ h => hpublish h)
      refine wp_require_seq.mpr ?_
      split
      · exact conclude_follows ⟨rfl, rfl⟩ fun _ => publish_follows ⟨n, .command r⟩ hv
      · exact ⟨rfl, rfl⟩
  | results => exact answerWith_follows results_follows

end Follows

/-! ## What holds of the network -/

/-- The request that published a copy. -/
def Origin.request? : Origin → Option Nat
  | .published n _ => some n
  | _ => none

/-- How many copies a request has put in a queue. -/
def Network.copies (net : Network) (n : Nat) (url : String) : Nat :=
  net.log.countP fun e => e.1 = url ∧ e.2.origin.request? = some n

/-- While `k` requests have been made. -/
structure Kept (S : Setup) (k : Nat) (net : Network) : Prop where
  queued : net.Logged
  published : ∀ url copy n group, (url, copy) ∈ net.log → copy.origin = .published n group →
    (∃ queue ∈ S.api.queuesForGroup group, queue.url = url) ∧ S.Commands group copy.body
  deleted : ∀ n copy, (n, copy) ∈ net.deleted →
    n < k ∧ S.api.resultQueueUrl ≠ "" ∧ (S.api.resultQueueUrl, copy) ∈ net.log
  later : ∀ n url, k ≤ n → net.copies n url = 0

/-- What the monitor of a request keeps in mind is true of the network. -/
structure Tracks (S : Setup) (k : Nat) (serving : Serving) (s : Watch) (net : Network) : Prop where
  number : serving.number < k
  nodup : s.todo.Nodup
  targets : ∀ url ∈ s.todo, ∃ queue ∈ S.api.queuesForGroup serving.request.group, queue.url = url
  once : ∀ url, net.copies serving.number url ≤ 1
  fresh : ∀ url ∈ s.todo, net.copies serving.number url = 0
  owed : ∀ copy, (serving.number, copy) ∈ net.deleted → copy.message ∈ s.received
  replied : s.replied = true → s.received = [] ∨ serving.number ∈ net.unwritten ∨
    (serving.number, .batch (Api.batchOf S.apiCodec s.received)) ∈ net.written

section Network

variable {net : Network} {k n : Nat} {url body : String} {origin : Origin} {serving : Serving}
  {s : Watch} {gone : Copy → Bool}

theorem copies_put (url' : String) :
    (net.put url body origin).copies n url' =
      net.copies n url' + if url = url' ∧ origin.request? = some n then 1 else 0 := by
  simp [Network.copies, Network.put, List.countP_cons]

theorem copies_put_of_ne (h : origin.request? ≠ some n) (url' : String) :
    (net.put url body origin).copies n url' = net.copies n url' := by
  simp [copies_put, h]

namespace Kept

theorem mono (h : Kept S k net) : Kept S (k + 1) net where
  queued := h.queued
  published := h.published
  deleted n copy hd := ⟨(h.deleted n copy hd).1.trans (Nat.lt_succ_self k), (h.deleted n copy hd).2⟩
  later n url hn := h.later n url (Nat.le_of_succ_le hn)

theorem put (h : Kept S k net)
    (hp : ∀ n group, origin = .published n group →
      n < k ∧ (∃ queue ∈ S.api.queuesForGroup group, queue.url = url) ∧ S.Commands group body) :
    Kept S k (net.put url body origin) where
  queued := h.queued.put
  published url' copy n group hl ho := by
    rcases List.mem_cons.mp hl with he | hl
    · cases he
      exact (hp n group ho).2
    · exact h.published _ _ _ _ hl ho
  deleted n copy hd :=
    ⟨(h.deleted n copy hd).1, (h.deleted n copy hd).2.1,
      List.mem_cons_of_mem _ (h.deleted n copy hd).2.2⟩
  later n url' hn := by
    rw [copies_put_of_ne, h.later n url' hn]
    intro ho
    cases origin with
    | published m group =>
        cases ho
        exact absurd (hp n group rfl).1 (Nat.not_lt.mpr hn)
    | reported i => cases ho
    | other => cases ho

theorem remove (h : Kept S k net) : Kept S k (net.remove url gone) where
  queued := h.queued.remove
  published := h.published
  deleted := h.deleted
  later := h.later

end Kept

namespace Tracks

theorem mono (h : Tracks S k serving s net) : Tracks S (k + 1) serving s net :=
  { h with number := h.number.trans (Nat.lt_succ_self k) }

/-- A message of somebody else does not concern a request. -/
theorem put (h : Tracks S k serving s net) (ho : origin.request? ≠ some serving.number) :
    Tracks S k serving s (net.put url body origin) :=
  { h with
    once := fun url' => (copies_put_of_ne ho url').trans_le (h.once url')
    fresh := fun url' hu => (copies_put_of_ne ho url').trans (h.fresh url' hu) }

theorem remove (h : Tracks S k serving s net) : Tracks S k serving s (net.remove url gone) :=
  { h with }

/-- Its own message, to a queue that it has not sent to. -/
theorem sent (h : Tracks S k serving s net) (hu : url ∈ s.todo) :
    Tracks S k serving { s with todo := s.todo.erase url } (net.put url body serving.origin) :=
  { h with
    nodup := h.nodup.erase url
    targets := fun url' hu' => h.targets url' (List.mem_of_mem_erase hu')
    once := fun url' => by
      rw [copies_put]
      split
      · rename_i he
        rw [← he.1, h.fresh url hu]
      · exact h.once url'
    fresh := fun url' hu' => by
      obtain ⟨hne, hu'⟩ := (h.nodup.mem_erase_iff).mp hu'
      rw [copies_put, h.fresh url' hu', if_neg (fun he => hne he.1.symm)] }

/-- A send that did not arrive. -/
theorem unsent (h : Tracks S k serving s net) :
    Tracks S k serving { s with todo := s.todo.erase url } net :=
  { h with
    nodup := h.nodup.erase url
    targets := fun url' hu' => h.targets url' (List.mem_of_mem_erase hu')
    fresh := fun url' hu' => h.fresh url' (List.mem_of_mem_erase hu') }

end Tracks

end Network

/-! ## The guard -/

/-- What a request does keeps the network, and is nothing to other
requests. -/
theorem guarded {k : Nat} :
    Guarded answer (fun _ _ _ _ => True) (monitor S) Serving.number (Kept S k) (Tracks S k) where
  expected {serving s net o c} _ _ _ _ := by
    cases o with
    | interleaving n =>
        refine ⟨nodup_arrange List.nodup_range, fun i hi => ?_⟩
        exact List.mem_range.mp (mem_arrange.mp hi)
    | _ => trivial
  world {serving s net o c} hk ht hp _ := by
    cases o with
    | send url body =>
        rcases answer_send serving c net with he | he
        · rw [he]
          refine hk.put fun n group ho => ?_
          cases ho
          exact ⟨ht.number, ht.targets _ hp.1, hp.2⟩
        · rw [he]
          exact hk
    | receive url max wait =>
        rw [answer_receive]
        exact hk
    | delete url messages =>
        obtain ⟨rfl, hne, -⟩ := hp
        obtain ⟨gone, deleted, he, hd⟩ := answer_delete serving c net
        rw [he]
        refine { hk.remove with deleted := fun n copy hc => ?_ }
        rcases List.mem_append.mp hc with hc | hc
        · obtain ⟨copy', hc, he⟩ := List.mem_map.mp hc
          cases he
          exact ⟨ht.number, hne, hk.queued _ _ (hd _ hc).1⟩
        · exact hk.deleted n copy hc
    | interleaving n => exact hk
    | respond status response =>
        rcases answer_respond serving c net with he | he
        · rw [he]
          exact { hk with }
        · rw [he]
          exact { hk with }
  own {serving s net o c} hk ht hp _ := by
    cases o with
    | send url body =>
        rcases answer_send serving c net with he | he
        · rw [he]
          exact ht.sent hp.1
        · rw [he]
          exact ht.unsent
    | receive url max wait =>
        rw [answer_receive]
        cases (answer serving c (.receive url max wait) net).1 with
        | error e => exact ht
        | ok messages =>
            -- nothing was deleted before it was received
            refine { ht with owed := fun copy hd => ?_, replied := fun hr => ?_ }
            · have hm := ht.owed copy hd
              rw [hp.1] at hm
              cases hm
            · cases hp.2.symm.trans hr
    | delete url messages =>
        obtain ⟨rfl, -, rfl⟩ := hp
        obtain ⟨gone, deleted, he, hd⟩ := answer_delete serving c net
        rw [he]
        refine { ht with owed := fun copy hc => ?_ }
        rcases List.mem_append.mp hc with hc | hc
        · obtain ⟨copy', hc, he⟩ := List.mem_map.mp hc
          cases he
          exact (hd _ hc).2
        · exact ht.owed copy hc
    | interleaving n => exact ht
    | respond status response =>
        rcases answer_respond serving c net with he | he
        · rw [he]
          refine { ht with replied := fun _ => hp.imp_right fun hb => ?_ }
          exact .inr (hb ▸ List.mem_cons_self)
        · rw [he]
          exact { ht with replied := fun _ => .inr (.inl List.mem_cons_self) }
  others {serving serving' s s' net o c} hk ht hp _ hne ht' := by
    cases o with
    | send url body =>
        rcases answer_send serving c net with he | he
        · rw [he]
          exact ht'.put fun h => hne (Option.some.inj h).symm
        · rw [he]
          exact ht'
    | receive url max wait =>
        rw [answer_receive]
        exact ht'
    | delete url messages =>
        obtain ⟨gone, deleted, he, -⟩ := answer_delete serving c net
        rw [he]
        refine { ht' with owed := fun copy hc => ?_ }
        rcases List.mem_append.mp hc with hc | hc
        · obtain ⟨copy', hc, he⟩ := List.mem_map.mp hc
          exact absurd (congrArg Prod.fst he).symm hne
        · exact ht'.owed copy hc
    | interleaving n => exact ht'
    | respond status response =>
        rcases answer_respond serving c net with he | he
        · rw [he]
          refine { ht' with replied := fun hr => ?_ }
          exact (ht'.replied hr).imp_right (Or.imp_right (List.mem_cons_of_mem _))
        · rw [he]
          refine { ht' with replied := fun hr => ?_ }
          exact (ht'.replied hr).imp_right (Or.imp_left (List.mem_cons_of_mem _))

/-! ## The invariant of the fleet -/

structure Sound (S : Setup) (s : State) : Prop where
  numbers : (s.requests.map fun t => t.owner.number) = List.range s.requests.length
  net : Kept S s.requests.length s.net
  watched : ∀ t ∈ s.requests,
    t.Watched (monitor S) (Tracks S s.requests.length) (fun _ w => w.replied = true) s.net

namespace Sound

variable {s s' : State}

/-- Somebody else's message arrives in a queue. -/
theorem put (h : Sound S s) {url body : String} {origin : Origin}
    {flight : List (Nat × String × String)} (ho : origin.request? = none) :
    Sound S { s with net := s.net.put url body origin, flight } where
  numbers := h.numbers
  net := h.net.put fun n group he => by
    rw [he] at ho
    cases ho
  watched t ht := by
    obtain ⟨w, htr, hf⟩ := h.watched t ht
    refine ⟨w, htr.put ?_, hf⟩
    rw [ho]
    exact fun he => by cases he

/-- What an agent does leaves the network as it is. -/
theorem member (h : Sound S s) {members : Nat → Member}
    {flight : List (Nat × String × String)} {taken : List (Nat × Copy)} :
    Sound S { s with members, flight, taken } where
  numbers := h.numbers
  net := h.net
  watched := h.watched

theorem step (hv : S.api.Valid) (h : Sound S s) (hs : Step S s s') : Sound S s' := by
  cases hs with
  | request r =>
      refine ⟨?_, ?_, fun t ht => ?_⟩
      · simp [h.numbers, List.range_succ, Setup.serving]
      · simpa using h.net.mono
      · rw [List.length_append]
        rcases List.mem_append.mp ht with ht | ht
        · obtain ⟨w, htr, hf⟩ := h.watched t ht
          exact ⟨w, htr.mono, hf⟩
        · rw [List.mem_singleton] at ht
          subst ht
          refine ⟨S.watch r, ?_, serve_follows hv ⟨s.requests.length, r⟩⟩
          have hzero : ∀ url, s.net.copies s.requests.length url = 0 := fun url =>
            h.net.later _ url le_rfl
          have hnew : S.targets r = [] ∨ S.targets r = S.api.queuesForGroup r.group := by
            cases r with
            | results => exact .inl rfl
            | deploy r => exact .inr rfl
            | command r => exact .inr rfl
          refine ⟨Nat.lt_succ_self _, ?_, fun url hu => ?_, fun url => ?_, fun url _ => hzero url,
            fun copy hd => ?_, fun hr => by cases hr⟩
          · rcases hnew with he | he
            · simp [Setup.watch, he]
            · rw [Setup.watch, he]
              exact hv.urls.sublist ((S.api.queuesForGroup_sublist _).map _)
          · obtain ⟨queue, hq, rfl⟩ := List.mem_map.mp hu
            rcases hnew with he | he
            · rw [he] at hq
              cases hq
            · exact ⟨queue, he ▸ hq, rfl⟩
          · exact (hzero url).trans_le (Nat.zero_le 1)
          · exact absurd (h.net.deleted _ copy hd).1 (Nat.lt_irrefl _)
  | @turn requests net ht =>
      have howners := ht.owners
      have hlen : requests.length = s.requests.length := by
        simpa using congrArg List.length howners
      have hnumbers : (requests.map fun t => t.owner.number) =
          s.requests.map fun t => t.owner.number := by
        simpa [List.map_map, Function.comp_def] using congrArg (List.map Serving.number) howners
      obtain ⟨hnet, hwatched⟩ := guarded.step h.net h.watched
        (by rw [h.numbers]; exact List.nodup_range) ht
      refine ⟨?_, ?_, ?_⟩
      · rw [hnumbers, h.numbers, hlen]
      · rw [hlen]
        exact hnet
      · rw [hlen]
        exact hwatched
  | arrive url body => exact h.put rfl
  | land _ _ _ => exact h.put rfl
  | lose _ _ _ => exact h.member
  | boot i _ _ _ => exact h.member
  | bootKilled i _ _ _ => exact h.member
  | handle i _ _ _ _ _ => exact h.member
  | killed i _ _ _ _ _ => exact h.member
  | exit i _ => exact h.member
  | finish i _ =>
      refine ⟨h.numbers, h.net.remove, fun t ht => ?_⟩
      obtain ⟨w, htr, hf⟩ := h.watched t ht
      exact ⟨w, htr.remove, hf⟩
  | device i w => exact h.member

end Sound

theorem Reachable.sound (hv : S.api.Valid) {s : State} (hr : Reachable S s) : Sound S s := by
  induction hr with
  | start hosts =>
      refine ⟨rfl, ⟨?_, ?_, ?_, fun _ _ _ => rfl⟩, ?_⟩
      · exact fun _ _ h => by cases h
      · exact fun _ _ _ _ h => by cases h
      · exact fun _ _ h => by cases h
      · exact fun _ h => by cases h
  | step _ hs ih => exact ih.step hv hs

end Yirang.Fleet
