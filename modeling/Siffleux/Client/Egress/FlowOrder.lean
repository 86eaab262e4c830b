import Siffleux.Client.Egress.FlowTable

/-!
# UDP flows do not mix

What the egress sends to the target for one origin, over all sockets it ever makes for that origin,
and what it sends back into the tunnel.

**To the target.**  `OrderSound` counts the payloads a task still has with those that have been
sent: the two together are a subsequence of what the tunnel delivered for the origin.  Sockets
follow each other without mixing, since an origin has one task that has not given its flow up
(`FlowsSound`).

**Back.**  `RepliesSound` says the same of the datagrams sent into the tunnel: each is the header of
the task's origin in front of what its socket received.
-/

namespace Siffleux

open ByteBuf Transition

open scoped List

/-- The payload of a datagram, if it comes from the origin. -/
def payloadOf (origin : SocketAddr) (bytes : Bytes) : Option Bytes :=
  match extractOriginSocketAddrFromDatagram bytes with
  | .ret (some o, payload) => if o = origin then some payload else none
  | _ => none

lemma payloadOf_eq_some {origin : SocketAddr} {bytes payload : Bytes}
    (h : extractOriginSocketAddrFromDatagram bytes = .ret (some origin, payload)) :
    payloadOf origin bytes = some payload := by
  rw [payloadOf, h]
  exact if_pos rfl

namespace FlowTask

/-- What the task has received and not sent, and what waits in its channel. -/
def pending (f : FlowTask) : List Bytes :=
  match f.pc with
  | .creating => f.channel.queue
  | .running batch => batch ++ f.channel.queue
  | _ => []

/-- A channel takes a payload at its end, or drops it. -/
lemma pending_trySend (f : FlowTask) (bytes : Bytes) :
    (f.trySend bytes).pending <+ f.pending ++ [bytes] := by
  have hq : (f.channel.trySend bytes).queue <+ f.channel.queue ++ [bytes] := by
    rw [Channel.trySend]
    split
    · exact List.sublist_append_left ..
    · exact List.Sublist.refl _
  simp only [pending, FlowTask.trySend]
  split
  · exact hq
  · rw [List.append_assoc]
    exact hq.append_left _
  · exact List.nil_sublist _

end FlowTask

namespace UdpTunnel

/-- The payloads that the tunnel delivered with this origin. -/
def deliveredTo (s : UdpTunnel) (origin : SocketAddr) : List Bytes :=
  s.delivered.filterMap (payloadOf origin)

/-- The payloads sent to the target on the sockets created for this origin. -/
def sentFor (s : UdpTunnel) (origin : SocketAddr) : List Bytes :=
  s.sentToTarget.filterMap fun e => if (s.flow e.1).origin = origin then some e.2 else none

/-- The payload the main loop holds for a task it has just spawned. -/
def hand (s : UdpTunnel) (i : ℕ) : List Bytes :=
  match s.main with
  | .trySend _ bytes j => if j = i then [bytes] else []
  | _ => []

/-- What is sent, pending and in hand for an origin was delivered, in this order. -/
structure OrderSound (s : UdpTunnel) : Prop where
  logged : ∀ e ∈ s.sentToTarget, e.1 < s.nextTask
  sent : ∀ origin, s.sentFor origin <+ s.deliveredTo origin
  ahead : ∀ i, i < s.nextTask → (s.flow i).announced = false →
    s.sentFor (s.flow i).origin ++ ((s.flow i).pending ++ s.hand i) <+
      s.deliveredTo (s.flow i).origin

lemma orderSound_new : new.OrderSound where
  logged _ h := by cases h
  sent _ := List.Sublist.refl _
  ahead i h := absurd h (Nat.not_lt_zero i)

variable {s s' : UdpTunnel}

lemma hand_of_waiting (hm : s.main = .waiting) (i : ℕ) : s.hand i = [] := by
  rw [hand, hm]

/-- What was sent for an origin depends on the tasks in the log only. -/
lemma sentFor_congr (h : s.OrderSound) (hl : s'.sentToTarget = s.sentToTarget)
    (ho : ∀ i, i < s.nextTask → (s'.flow i).origin = (s.flow i).origin) (origin : SocketAddr) :
    s'.sentFor origin = s.sentFor origin := by
  rw [sentFor, sentFor, hl]
  refine List.filterMap_congr fun e he => ?_
  rw [ho e.1 (h.logged e he)]

/-- A step that sends nothing and spawns nothing: no task has more ahead than what is delivered
meanwhile. -/
lemma OrderSound.move (h : s.OrderSound) (hn : s'.nextTask = s.nextTask)
    (hl : s'.sentToTarget = s.sentToTarget)
    (ho : ∀ i, (s'.flow i).origin = (s.flow i).origin)
    (ha : ∀ i, (s'.flow i).announced = false → (s.flow i).announced = false)
    (hd : ∀ origin, s.deliveredTo origin <+ s'.deliveredTo origin)
    (hp : ∀ i, (s'.flow i).announced = false →
      s.sentFor (s.flow i).origin ++ ((s.flow i).pending ++ s.hand i) <+
        s.deliveredTo (s.flow i).origin →
      s.sentFor (s.flow i).origin ++ ((s'.flow i).pending ++ s'.hand i) <+
        s'.deliveredTo (s.flow i).origin) : s'.OrderSound := by
  have hsent := sentFor_congr h hl fun i _ => ho i
  constructor
  case logged =>
    rw [hl, hn]
    exact h.logged
  case sent =>
    intro origin
    rw [hsent]
    exact (h.sent origin).trans (hd origin)
  case ahead =>
    intro i hi hai
    rw [hn] at hi
    rw [hsent, ho]
    exact hp i hai (h.ahead i hi (ha i hai))

/-- A step that moves no task. -/
lemma OrderSound.congr (h : s.OrderSound) (hn : s'.nextTask = s.nextTask)
    (hl : s'.sentToTarget = s.sentToTarget) (hf : s'.flow = s.flow)
    (hd : s.delivered <+ s'.delivered) (hh : ∀ i, s'.hand i <+ s.hand i) : s'.OrderSound := by
  have hdel : ∀ origin, s.deliveredTo origin <+ s'.deliveredTo origin :=
    fun origin => hd.filterMap _
  refine h.move hn hl (fun i => by rw [hf]) (fun i => by rw [hf]; exact id) hdel fun i _ hi => ?_
  rw [hf]
  exact (((hh i).append_left _).append_left _).trans (hi.trans (hdel _))

/-- A step of one task that takes in nothing. -/
lemma OrderSound.setFlow (h : s.OrderSound) {i : ℕ} {f : FlowTask}
    (ho : f.origin = (s.flow i).origin)
    (ha : f.announced = false → (s.flow i).announced = false)
    (hp : f.announced = false → f.pending <+ (s.flow i).pending) : (s.setFlow i f).OrderSound := by
  refine h.move rfl rfl (fun j => ?_) (fun j => ?_) (fun _ => List.Sublist.refl _) fun j => ?_
  · refine flow_update (P := fun g => g.origin = (s.flow j).origin) j ?_ fun _ => rfl
    rintro rfl
    exact ho
  · refine flow_update (P := fun g => g.announced = false → (s.flow j).announced = false) j ?_
      fun _ => id
    rintro rfl
    exact ha
  · refine flow_update (P := fun g => g.announced = false → _ → s.sentFor (s.flow j).origin ++
      (g.pending ++ s.hand j) <+ s.deliveredTo (s.flow j).origin) j ?_ fun _ _ => id
    rintro rfl hun hj
    exact (((hp hun).append_right _).append_left _).trans hj

/-- What the log says after a datagram with an origin. -/
lemma deliveredTo_deliver {bytes payload : Bytes} {origin : SocketAddr}
    (he : extractOriginSocketAddrFromDatagram bytes = .ret (some origin, payload)) :
    (s.deliver bytes).deliveredTo origin = s.deliveredTo origin ++ [payload] := by
  rw [deliveredTo, deliver, List.filterMap_append, List.filterMap_cons, payloadOf_eq_some he]
  rfl

lemma deliveredTo_sublist (s : UdpTunnel) (bytes : Bytes) (origin : SocketAddr) :
    s.deliveredTo origin <+ (s.deliver bytes).deliveredTo origin :=
  (List.sublist_append_left s.delivered [bytes]).filterMap _

/-- A datagram for a task that is there. -/
lemma OrderSound.route (h : s.OrderSound) (hf : s.FlowsSound) (hm : s.main = .waiting)
    {bytes payload : Bytes} {origin : SocketAddr} {i : ℕ}
    (he : extractOriginSocketAddrFromDatagram bytes = .ret (some origin, payload))
    (hi : s.udpSockets origin = some i) :
    ((s.deliver bytes).setFlow i ((s.flow i).trySend payload)).OrderSound := by
  have ho : (s.flow i).origin = origin :=
    (hf.entry origin i ((current_of_waiting hm origin).trans hi)).2
  have hd := s.deliveredTo_sublist bytes
  refine h.move rfl rfl (fun j => ?_) (fun j => ?_) hd fun j => ?_
  · refine flow_update (P := fun g => g.origin = (s.flow j).origin) j ?_ fun _ => rfl
    rintro rfl
    rfl
  · refine flow_update (P := fun g => g.announced = false → (s.flow j).announced = false) j ?_
      fun _ => id
    rintro rfl
    exact id
  · refine flow_update (P := fun g => g.announced = false → _ → s.sentFor (s.flow j).origin ++
      (g.pending ++ s.hand j) <+ (s.deliver bytes).deliveredTo (s.flow j).origin) j ?_
      fun _ _ hj => hj.trans (hd _)
    rintro rfl - hj
    rw [hand_of_waiting hm, List.append_nil] at hj ⊢
    rw [ho] at hj ⊢
    rw [deliveredTo_deliver he]
    calc s.sentFor origin ++ ((s.flow j).trySend payload).pending
        <+ s.sentFor origin ++ ((s.flow j).pending ++ [payload]) :=
          ((s.flow j).pending_trySend payload).append_left _
      _ = (s.sentFor origin ++ (s.flow j).pending) ++ [payload] := (List.append_assoc ..).symm
      _ <+ s.deliveredTo origin ++ [payload] := hj.append_right _

/-- A datagram for which a task is spawned. -/
lemma OrderSound.spawn (h : s.OrderSound) (hm : s.main = .waiting) {bytes payload : Bytes}
    {origin : SocketAddr}
    (he : extractOriginSocketAddrFromDatagram bytes = .ret (some origin, payload))
    (hs' : s' = { (s.deliver bytes).setFlow s.nextTask (.spawn origin) with
      main := .trySend origin payload s.nextTask
      nextTask := s.nextTask + 1 }) : s'.OrderSound := by
  have hd : ∀ a, s.deliveredTo a <+ s'.deliveredTo a := by
    subst hs'
    exact s.deliveredTo_sublist bytes
  have hold : ∀ j, j < s.nextTask → s'.flow j = s.flow j := by
    intro j hj
    subst hs'
    exact Function.update_of_ne (Nat.ne_of_lt hj) ..
  have hself : s'.flow s.nextTask = .spawn origin := by
    subst hs'
    exact Function.update_self ..
  have hsent : ∀ a, s'.sentFor a = s.sentFor a :=
    sentFor_congr h (by subst hs'; rfl) fun j hj => by rw [hold j hj]
  have hnext : s'.nextTask = s.nextTask + 1 := by subst hs'; rfl
  have hhand : ∀ j, s'.hand j = if s.nextTask = j then [payload] else [] := by
    subst hs'
    exact fun _ => rfl
  constructor
  case logged =>
    intro e hmem
    rw [show s'.sentToTarget = s.sentToTarget by subst hs'; rfl] at hmem
    have := h.logged e hmem
    omega
  case sent =>
    intro a
    rw [hsent]
    exact (h.sent a).trans (hd a)
  case ahead =>
    intro j hj ha
    rw [hsent]
    rcases eq_or_ne j s.nextTask with rfl | hne
    · have hnew : s'.deliveredTo origin = s.deliveredTo origin ++ [payload] := by
        subst hs'
        exact deliveredTo_deliver he
      rw [hself, hhand, if_pos rfl]
      exact hnew ▸ (h.sent origin).append_right _
    · have hlt : j < s.nextTask := by omega
      rw [hold j hlt] at ha ⊢
      have hj' := h.ahead j hlt ha
      rw [hand_of_waiting hm] at hj'
      rw [hhand, if_neg hne.symm]
      exact hj'.trans (hd _)

/-- The main loop puts what it has in hand into the channel. -/
lemma OrderSound.triedSend (h : s.OrderSound) {origin : SocketAddr} {bytes : Bytes} {i : ℕ}
    (hm : s.main = .trySend origin bytes i) :
    { s.setFlow i ((s.flow i).trySend bytes) with main := .insert origin i }.OrderSound := by
  have hhand : ∀ j, s.hand j = if i = j then [bytes] else [] := by
    intro j
    rw [hand, hm]
  refine h.move rfl rfl (fun j => ?_) (fun j => ?_) (fun _ => List.Sublist.refl _) fun j => ?_
  · refine flow_update (P := fun g => g.origin = (s.flow j).origin) j ?_ fun _ => rfl
    rintro rfl
    rfl
  · refine flow_update (P := fun g => g.announced = false → (s.flow j).announced = false) j ?_
      fun _ => id
    rintro rfl
    exact id
  · refine flow_update (P := fun g => g.announced = false → _ → s.sentFor (s.flow j).origin ++
      (g.pending ++ []) <+ s.deliveredTo (s.flow j).origin) j ?_ ?_
    · rintro rfl - hj
      rw [hhand, if_pos rfl] at hj
      rw [List.append_nil]
      exact (((s.flow j).pending_trySend bytes).append_left _).trans hj
    · intro hne _ hj
      rwa [hhand, if_neg hne.symm] at hj

/-- One payload goes to the target: it was the next the task had, and no other task has any for the
same origin. -/
lemma OrderSound.send (h : s.OrderSound) (hf : s.FlowsSound) {i : ℕ} {bytes : Bytes}
    {batch : List Bytes} (hi : (s.flow i).pc = .running (bytes :: batch))
    (hs' : s' = { s.setFlow i { s.flow i with pc := .running batch } with
      sentToTarget := s.sentToTarget ++ [(i, bytes)] }) : s'.OrderSound := by
  have hlt : i < s.nextTask := (hf.spawned i).mp (by rw [hi]; simp)
  have hun : (s.flow i).announced = false := (hf.task i).active (by rw [hi]; rfl)
  have hahead := h.ahead i hlt hun
  have hpend : (s.flow i).pending = bytes :: (batch ++ (s.flow i).channel.queue) := by
    rw [FlowTask.pending, hi]
    rfl
  have hself : s'.flow i = { s.flow i with pc := .running batch } := by
    subst hs'
    exact Function.update_self ..
  have hother : ∀ j, j ≠ i → s'.flow j = s.flow j := by
    intro j hne
    subst hs'
    exact Function.update_of_ne hne ..
  have horigin : ∀ j, (s'.flow j).origin = (s.flow j).origin := by
    intro j
    rcases eq_or_ne j i with rfl | hne
    · rw [hself]
    · rw [hother j hne]
  have hhand : ∀ j, s'.hand j = s.hand j := by subst hs'; exact fun _ => rfl
  have hdel : ∀ a, s'.deliveredTo a = s.deliveredTo a := by subst hs'; exact fun _ => rfl
  have hsent : ∀ a, s'.sentFor a =
      s.sentFor a ++ if (s.flow i).origin = a then [bytes] else [] := by
    intro a
    have hlog : s'.sentToTarget = s.sentToTarget ++ [(i, bytes)] := by subst hs'; rfl
    simp only [sentFor, hlog, horigin, List.filterMap_append, List.filterMap_cons,
      List.filterMap_nil]
    split_ifs <;> rfl
  constructor
  case logged =>
    intro e he
    rw [show s'.sentToTarget = s.sentToTarget ++ [(i, bytes)] by subst hs'; rfl] at he
    rw [show s'.nextTask = s.nextTask by subst hs'; rfl]
    rcases List.mem_append.mp he with he | he
    · exact h.logged e he
    · rw [List.mem_singleton.mp he]
      exact hlt
  case sent =>
    intro a
    rw [hsent, hdel]
    split_ifs with ha
    · subst ha
      rw [hpend] at hahead
      refine List.Sublist.trans (List.Sublist.append_left ?_ _) hahead
      exact List.singleton_sublist.mpr List.mem_cons_self
    · rw [List.append_nil]
      exact h.sent a
  case ahead =>
    intro j hj ha
    rw [show s'.nextTask = s.nextTask by subst hs'; rfl] at hj
    rw [horigin, hsent, hhand, hdel]
    rcases eq_or_ne j i with rfl | hne
    · have hrest : (s'.flow j).pending = batch ++ (s.flow j).channel.queue := by
        rw [hself]
        rfl
      rw [if_pos rfl, hrest, List.append_assoc]
      rwa [hpend] at hahead
    · -- the two tasks cannot have one origin: neither has announced its end
      rw [hother j hne] at ha ⊢
      have hdiff : (s.flow i).origin ≠ (s.flow j).origin := by
        intro heq
        have hi' := hf.unannounced i hlt hun
        rw [heq, hf.unannounced j hj ha, Option.some.injEq] at hi'
        exact hne hi'
      rw [if_neg hdiff, List.append_nil]
      exact h.ahead j hj ha

theorem OrderSound.step {l : Label} (h : s.OrderSound) (hf : s.FlowsSound)
    (hs : s.step l = some s') : s'.OrderSound := by
  have hquiet : ∀ {i f}, f.origin = (s.flow i).origin → f.announced = (s.flow i).announced →
      f.pending <+ (s.flow i).pending → (s.setFlow i f).OrderSound := fun ho ha hp =>
    h.setFlow ho (fun hfa => by rw [← ha]; exact hfa) fun _ => hp
  have hannounce : ∀ {i c}, (s.announce i c).OrderSound := by
    intro i c
    have hset : (s.setFlow i { s.flow i with pc := .leaving c, announced := true }).OrderSound :=
      h.setFlow rfl (fun ha => by cases ha) fun ha => by cases ha
    exact hset.congr rfl rfl rfl (List.Sublist.refl _) fun _ => List.Sublist.refl _
  have hmain : ∀ {s' : UdpTunnel}, s.main = .waiting → s'.nextTask = s.nextTask →
      s'.sentToTarget = s.sentToTarget → s'.flow = s.flow → s.delivered <+ s'.delivered →
      (∀ i, s'.hand i = []) → s'.OrderSound := fun hm hn hl hfl hd hh =>
    h.congr hn hl hfl hd fun i => by rw [hh i]; exact List.nil_sublist _
  cases step_cases hs with
  | malformed hm => exact hmain hm rfl rfl rfl (List.sublist_append_left ..) fun _ => rfl
  | noOrigin hm =>
      exact hmain hm rfl rfl rfl (List.sublist_append_left ..) fun i => hand_of_waiting hm i
  | routed hm he hi => exact h.route hf hm he hi
  | spawned hm he => exact h.spawn hm he rfl
  | triedSend hm => exact h.triedSend hm
  | inserted hm =>
      exact h.congr rfl rfl rfl (List.Sublist.refl _) fun i => List.nil_sublist _
  | expired hm =>
      exact hmain hm rfl rfl rfl (List.Sublist.refl _) fun i => hand_of_waiting hm i
  | leftClosed hm => exact hmain hm rfl rfl rfl (List.Sublist.refl _) fun _ => rfl
  | leftCancelled hm => exact hmain hm rfl rfl rfl (List.Sublist.refl _) fun _ => rfl
  | socketFailed | idled | taskClosed => exact hannounce
  | @socketCreated i hi =>
      refine hquiet rfl rfl ?_
      rw [FlowTask.pending, FlowTask.pending, hi]
      exact List.Sublist.refl _
  | noSender | taskCancelled | taskReturned => exact hquiet rfl rfl (List.nil_sublist _)
  | @gotBatch i hi =>
      refine hquiet rfl rfl ?_
      rw [FlowTask.pending, FlowTask.pending, hi]
      simp only [List.take_append_drop, List.nil_append]
      exact List.Sublist.refl _
  | sent hi => exact h.send hf hi rfl
  | @notSent i bytes batch hi =>
      refine hquiet rfl rfl ?_
      rw [FlowTask.pending, FlowTask.pending, hi]
      exact List.sublist_cons_self ..
  | @replied i data ok =>
      obtain ⟨buffer, payload, he⟩ := s.sendReply_eq i data ok
      have hset : (s.setFlow i { s.flow i with buffer := buffer }).OrderSound :=
        hquiet rfl rfl (List.Sublist.refl _)
      rw [he]
      exact hset.congr rfl rfl rfl (List.Sublist.refl _) fun _ => List.Sublist.refl _
  | replyReturned => exact hquiet rfl rfl (List.Sublist.refl _)
  | closed => exact h.congr rfl rfl rfl (List.Sublist.refl _) fun _ => List.Sublist.refl _
  | cancelled => exact h.congr rfl rfl rfl (List.Sublist.refl _) fun _ => List.Sublist.refl _

theorem orderSound_run {ls : List Label} (h : system.Run ls s) : s.OrderSound := by
  induction h with
  | nil => exact orderSound_new
  | snoc hr hs ih => exact ih.step (flowsSound_run hr) hs

/-! ## Back into the tunnel -/

/-- A datagram as it goes back: the header of the task's origin and what the task received. -/
def replyOf (s : UdpTunnel) (e : ℕ × Bytes) : Bytes := originHeader (s.flow e.1).origin ++ e.2

/-- Replies are received on the sockets of spawned tasks, whose origins came from datagrams. -/
structure RepliesSound (s : UdpTunnel) : Prop where
  replying : ∀ i, (s.flow i).reply ≠ .notSpawned → i < s.nextTask
  logged : ∀ e ∈ s.received, e.1 < s.nextTask
  origin : ∀ i, i < s.nextTask → (s.flow i).origin.IsOrigin
  sent : s.sentToTunnel <+ s.received.map s.replyOf

lemma repliesSound_new : new.RepliesSound where
  replying _ h := absurd rfl h
  logged _ h := by cases h
  origin i h := absurd h (Nat.not_lt_zero i)
  sent := List.Sublist.refl _

/-- A step that receives nothing. -/
lemma RepliesSound.congr (h : s.RepliesSound) (hn : s.nextTask ≤ s'.nextTask)
    (ho : ∀ i, i < s.nextTask → (s'.flow i).origin = (s.flow i).origin)
    (hnew : ∀ i, s.nextTask ≤ i → i < s'.nextTask → (s'.flow i).origin.IsOrigin)
    (hrep : ∀ i, (s'.flow i).reply ≠ .notSpawned →
      (s.flow i).reply ≠ .notSpawned ∨ i < s.nextTask)
    (hr : s'.received = s.received) (ht : s'.sentToTunnel = s.sentToTunnel) : s'.RepliesSound where
  replying i hi := Nat.lt_of_lt_of_le ((hrep i hi).elim (h.replying i) id) hn
  logged := by
    rw [hr]
    exact fun e he => Nat.lt_of_lt_of_le (h.logged e he) hn
  origin i hi := by
    rcases Nat.lt_or_ge i s.nextTask with hlt | hge
    · rw [ho i hlt]
      exact h.origin i hlt
    · exact hnew i hge hi
  sent := by
    have hmap : s'.received.map s'.replyOf = s.received.map s.replyOf := by
      rw [hr]
      exact List.map_congr_left fun e he => by rw [replyOf, replyOf, ho e.1 (h.logged e he)]
    rw [ht, hmap]
    exact h.sent

/-- A step of one task that receives nothing. -/
lemma RepliesSound.setFlow (h : s.RepliesSound) {i : ℕ} {f : FlowTask}
    (hfl : s'.flow = Function.update s.flow i f) (ho : f.origin = (s.flow i).origin)
    (hrep : f.reply ≠ .notSpawned → (s.flow i).reply ≠ .notSpawned ∨ i < s.nextTask)
    (hn : s'.nextTask = s.nextTask) (hr : s'.received = s.received)
    (ht : s'.sentToTunnel = s.sentToTunnel) : s'.RepliesSound := by
  refine h.congr (Nat.le_of_eq hn.symm) (fun j _ => ?_) (fun j hj hlt => ?_) (fun j => ?_) hr ht
  · rw [hfl]
    refine flow_update (P := fun g => g.origin = (s.flow j).origin) j ?_ fun _ => rfl
    rintro rfl
    exact ho
  · omega
  · rw [hfl]
    refine flow_update (P := fun g => g.reply ≠ .notSpawned →
      (s.flow j).reply ≠ .notSpawned ∨ j < s.nextTask) j ?_ fun _ => Or.inl
    rintro rfl
    exact hrep

/-- One round of a reply task. -/
lemma RepliesSound.reply (h : s.RepliesSound) {i : ℕ} (hi : i < s.nextTask) {buffer payload : Bytes}
    {ok : Bool} (hs' : s' = { s.setFlow i { s.flow i with buffer := buffer } with
      received := s.received ++ [(i, payload)]
      sentToTunnel :=
        if ok then s.sentToTunnel ++ [originHeader (s.flow i).origin ++ payload]
        else s.sentToTunnel }) : s'.RepliesSound := by
  have horigin : ∀ j, (s'.flow j).origin = (s.flow j).origin := by
    intro j
    subst hs'
    refine flow_update (P := fun g => g.origin = (s.flow j).origin) j ?_ fun _ => rfl
    rintro rfl
    rfl
  have hnext : s'.nextTask = s.nextTask := by subst hs'; rfl
  have hreceived : s'.received = s.received ++ [(i, payload)] := by subst hs'; rfl
  have hreply : ∀ e, s'.replyOf e = s.replyOf e := fun e => by rw [replyOf, replyOf, horigin]
  constructor
  case replying =>
    intro j hj
    rw [hnext]
    rcases eq_or_ne j i with rfl | hne
    · exact hi
    · rw [show s'.flow j = s.flow j by subst hs'; exact Function.update_of_ne hne ..] at hj
      exact h.replying j hj
  case logged =>
    intro e he
    rw [hreceived, List.mem_append, List.mem_singleton] at he
    rw [hnext]
    rcases he with he | rfl
    · exact h.logged e he
    · exact hi
  case origin =>
    intro j hj
    rw [hnext] at hj
    rw [horigin]
    exact h.origin j hj
  case sent =>
    rw [hreceived, List.map_congr_left fun e _ => hreply e, List.map_append, List.map_singleton]
    have hsent : s'.sentToTunnel =
        s.sentToTunnel ++ if ok then [s.replyOf (i, payload)] else [] := by
      subst hs'
      cases ok
      · exact (List.append_nil _).symm
      · rfl
    rw [hsent]
    refine h.sent.append ?_
    split_ifs
    · exact List.Sublist.refl _
    · exact List.nil_sublist _

theorem RepliesSound.step {l : Label} (h : s.RepliesSound) (hf : s.FlowsSound)
    (hs : s.step l = some s') : s'.RepliesSound := by
  have hsame : ∀ {s' : UdpTunnel}, s'.nextTask = s.nextTask → s'.flow = s.flow →
      s'.received = s.received → s'.sentToTunnel = s.sentToTunnel → s'.RepliesSound := by
    intro s' hn hfl hr ht
    refine h.congr (Nat.le_of_eq hn.symm) (fun i _ => by rw [hfl]) (fun i hi hlt => ?_)
      (fun i => by rw [hfl]; exact Or.inl) hr ht
    omega
  cases step_cases hs with
  | malformed | noOrigin | inserted | expired | leftClosed | leftCancelled | closed | cancelled =>
      exact hsame rfl rfl rfl rfl
  | @spawned bytes payload origin hm he =>
      have hself : Function.update s.flow s.nextTask (.spawn origin) s.nextTask = .spawn origin :=
        Function.update_self ..
      have hother : ∀ i, i ≠ s.nextTask →
          Function.update s.flow s.nextTask (.spawn origin) i = s.flow i :=
        fun i hne => Function.update_of_ne hne ..
      refine h.congr (Nat.le_succ _) (fun i hi => ?_) (fun i hi hlt => ?_) (fun i hi => ?_) rfl rfl
      · exact congrArg (fun f : FlowTask => f.origin) (hother i (Nat.ne_of_lt hi))
      · have hlt' : i < s.nextTask + 1 := hlt
        obtain rfl : i = s.nextTask := by omega
        rw [show (UdpTunnel.flow _ s.nextTask) = _ from hself]
        exact (extract_eq_ret_some_iff.mp he).1
      · rcases eq_or_ne i s.nextTask with rfl | hne
        · rw [show (UdpTunnel.flow _ s.nextTask) = _ from hself] at hi
          exact absurd rfl hi
        · rw [show (UdpTunnel.flow _ i) = _ from hother i hne] at hi
          exact Or.inl hi
  | @socketCreated i hi =>
      have hlt : i < s.nextTask := (hf.spawned i).mp (by rw [hi]; simp)
      exact h.setFlow rfl rfl (fun _ => Or.inr hlt) rfl rfl rfl
  | @replied i data ok hi =>
      obtain ⟨buffer, payload, he⟩ := s.sendReply_eq i data ok
      exact h.reply (h.replying i (by rw [hi]; simp)) he
  | @replyReturned i hi =>
      exact h.setFlow rfl rfl (fun _ => Or.inl (by rw [hi]; simp)) rfl rfl rfl
  | _ => exact h.setFlow rfl rfl Or.inl rfl rfl rfl

theorem repliesSound_run {ls : List Label} (h : system.Run ls s) : s.RepliesSound := by
  induction h with
  | nil => exact repliesSound_new
  | snoc hr hs ih => exact ih.step (flowsSound_run hr) hs

/-! ## One origin's traffic -/

/-- What was sent on a socket was sent for the origin of its task. -/
lemma mem_sentFor {i : ℕ} {bytes : Bytes} (h : (i, bytes) ∈ s.sentToTarget) :
    bytes ∈ s.sentFor (s.flow i).origin :=
  List.mem_filterMap.mpr ⟨(i, bytes), h, if_pos rfl⟩

/-- Each origin's payloads go to the target as they were delivered, none of them twice; each reply
is received once, on a socket of one origin, and goes back under this origin. -/
structure FlowsApart (s : UdpTunnel) : Prop where
  ordered : ∀ origin, s.sentFor origin <+ s.deliveredTo origin
  replies : s.sentToTunnel <+ s.received.map s.replyOf
  isolated : ∀ bytes ∈ s.sentToTunnel, ∃ i payload,
    extractOriginSocketAddrFromDatagram bytes = .ret (some (s.flow i).origin, payload) ∧
      (i, payload) ∈ s.received ∧
      ∀ sent, (i, sent) ∈ s.sentToTarget → sent ∈ s.deliveredTo (s.flow i).origin

/-- **UDP flows are isolated, ordered and not duplicated**, in every run of the egress under one
tunnel: for every origin, over all sockets that are created for it, and for every datagram that goes
back. -/
theorem flows_apart {ls : List Label} (h : system.Run ls s) : s.FlowsApart := by
  have ho := orderSound_run h
  have hr := repliesSound_run h
  refine ⟨ho.sent, hr.sent, fun bytes hb => ?_⟩
  obtain ⟨⟨i, payload⟩, he, rfl⟩ := List.mem_map.mp (hr.sent.subset hb)
  have horigin : (s.flow i).origin.IsOrigin := hr.origin i (hr.logged _ he)
  refine ⟨i, payload, extract_eq_ret_some_iff.mpr ⟨horigin, rfl⟩, he, fun sent hsent => ?_⟩
  exact (ho.sent _).subset (mem_sentFor hsent)

/-- Two origins; the first comes back after its task has expired, and the second gets a reply. -/
def twoOriginsRun : List Label :=
  [.datagram [0, 127, 0, 0, 1, 31, 144, 1], .trySend, .insert,
    .datagram [0, 127, 0, 0, 1, 31, 145, 2], .trySend, .insert,
    .socketCreated 0, .recvMany 0, .send 0 true, .socketCreated 1, .recvMany 1, .send 1 true,
    .idle 0, .expire, .datagram [0, 127, 0, 0, 1, 31, 144, 3], .taskReturns 0, .trySend, .insert,
    .socketCreated 2, .recvMany 2, .send 2 true, .reply 1 [4] true]

set_option maxRecDepth 8000 in
theorem flows_apart_two_origins : ∃ s, system.Run twoOriginsRun s ∧ s.FlowsApart ∧
    s.sentFor (.v4 ⟨#v[127, 0, 0, 1]⟩ 8080) = [[1], [3]] ∧
    s.sentToTunnel = [[0, 127, 0, 0, 1, 31, 145, 4]] := by
  have h : system.Run twoOriginsRun _ := System.run_of_exec rfl
  exact ⟨_, h, flows_apart h, rfl, rfl⟩

end UdpTunnel

end Siffleux
