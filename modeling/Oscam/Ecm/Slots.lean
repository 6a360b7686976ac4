import Mathlib.Logic.Relation
import Oscam.Ecm.Tags

/-!
# How often a slot is answered

A slot of a client is answered from four directions: by `get_cw` itself, out
of the cache, by an answer in the pipe, and by a time-out.  `ClientStep` is
what can happen to one client, with any message in its pipe and anything going
on elsewhere.
-/

namespace Oscam

/-! ## The history of a slot -/

def LogEntry.client : LogEntry → ClientId
  | .allocated c _ => c
  | .delivered delivery => delivery.client

def LogEntry.delivers (c : ClientId) (i : Nat) : LogEntry → Bool
  | .allocated _ _ => false
  | .delivered delivery => delivery.client == c && delivery.cpti == i

/-- The calls of `send_dcw` for a slot since its last allocation; the newest
entry of the history comes first. -/
def sends (log : List LogEntry) (c : ClientId) (i : Nat) : Nat :=
  (log.takeWhile (· ≠ .allocated c i)).countP (·.delivers c i)

section Sends

variable {log : List LogEntry} {c : ClientId} {i j : Nat}

@[simp] theorem sends_allocated :
    sends (.allocated c i :: log) c i = 0 := by
  simp [sends]

theorem sends_cons_of_client_ne {entry : LogEntry}
    (other : entry.client ≠ c) : sends (entry :: log) c i = sends log c i := by
  cases entry with
  | allocated d j =>
      have apart : (LogEntry.allocated d j) ≠ .allocated c i := by
        rintro ⟨⟩
        exact other rfl
      simp [sends, apart, LogEntry.delivers]
  | delivered delivery =>
      have apart : delivery.client ≠ c := other
      simp [sends, LogEntry.delivers, apart]

theorem sends_allocated_of_ne (other : j ≠ i) :
    sends (.allocated c i :: log) c j = sends log c j := by
  simp [sends, LogEntry.delivers, other.symm]

theorem sends_delivered (log : List LogEntry) (j : Nat)
    (delivery : Delivery) (same : delivery.client = c) :
    sends (.delivered delivery :: log) c j =
      sends log c j + if j = delivery.cpti then 1 else 0 := by
  by_cases slot : j = delivery.cpti
  · simp [sends, LogEntry.delivers, same, slot]
  · simp [sends, LogEntry.delivers, same, slot, Ne.symm slot]

theorem sends_append (log : List LogEntry) {others : List LogEntry}
    (elsewhere : ∀ entry ∈ others, entry.client ≠ c) :
    sends (others ++ log) c i = sends log c i := by
  induction others with
  | nil => rfl
  | cons entry others induction =>
      rw [List.cons_append,
        sends_cons_of_client_ne (elsewhere entry List.mem_cons_self)]
      exact induction fun later member =>
        elsewhere later (List.mem_cons_of_mem entry member)

end Sends

/-! ## Steps of one client -/

/-- The slots of the client and its history stay as they are. -/
structure Elsewhere (c : ClientId) (s t : Server) : Prop where
  table : (t.clients c).ecmtask = (s.clients c).ecmtask
  log : ∃ others, t.log = others ++ s.log ∧
    ∀ entry ∈ others, entry.client ≠ c

/-- What can happen to client `c`: it logs in or goes, sends a request, takes
a message, looks at a pending slot, or something happens elsewhere. -/
inductive ClientStep (cfg : Config) (c : ClientId) (s : Server) :
    Server → Prop where
  | csConnect (multi : Bool) (grp : Grp) :
      ClientStep cfg c s (s.csConnect c multi grp)
  | csDisconnect : ClientStep cfg c s (s.csDisconnect c)
  | request (checks : Checks) (asked : Asked) :
      ClientStep cfg c s (s.request cfg checks c asked)
  | chkDcw (er : EcmRequest) : ClientStep cfg c s (s.chkDcw c er)
  | chkPending (i : Nat) : ClientStep cfg c s (Server.chkPendingSlot cfg c s i)
  | elsewhere {t : Server} : Elsewhere c s t → ClientStep cfg c s t

namespace Server

/-- Since its last allocation a slot was sent at most once, and a slot that
was sent is done. -/
def AnsweredOnce (s : Server) (c : ClientId) : Prop :=
  ∀ i, sends s.log c i ≤ 1 ∧
    (sends s.log c i ≠ 0 → ∀ er ∈ s.slotOf c i, er.rc < e99)

theorem slotOf_complete {s : Server} {c d : ClientId} {er ert : EcmRequest}
    {i : Nat} :
    (s.complete c er ert).slotOf d i =
      (s.setSlot c er.cpti (sendDcw ert)).slotOf d i := by
  simp only [complete, slotOf, distributeEcm]
  split
  · rw [Client.distribute_ecmtask]
    rfl
  · rfl

namespace AnsweredOnce

variable {cfg : Config} {s t : Server} {c : ClientId} {i : Nat}
  {er : EcmRequest}

theorem congr (once : s.AnsweredOnce c)
    (table : (t.clients c).ecmtask = (s.clients c).ecmtask)
    (log : ∀ i, sends t.log c i = sends s.log c i) : t.AnsweredOnce c := by
  intro i
  rw [log i, slotOf, table]
  exact once i

theorem elsewhere (once : s.AnsweredOnce c) (same : Elsewhere c s t) :
    t.AnsweredOnce c := by
  obtain ⟨others, log, apart⟩ := same.log
  exact once.congr same.table fun i => by rw [log, sends_append s.log apart]

/-- A pending slot was not sent yet. -/
theorem unsent (once : s.AnsweredOnce c) (found : s.slotOf c i = some er)
    (pending : e99 ≤ er.rc) : sends s.log c i = 0 := by
  by_contra sent
  have done := (once i).2 sent er found
  omega

theorem setSlot (once : s.AnsweredOnce c)
    (fits : sends s.log c i = 0 ∨ er.rc < e99) :
    (s.setSlot c i er).AnsweredOnce c := by
  intro j
  refine ⟨(once j).1, fun sent slot member => ?_⟩
  rw [slotOf_setSlot] at member
  split at member
  · rename_i both
    obtain ⟨_, rfl⟩ := both
    obtain ⟨_, _, rfl⟩ := Option.map_eq_some_iff.mp member
    exact fits.resolve_left sent
  · exact (once j).2 sent slot member

theorem deliver (once : s.AnsweredOnce c) (unsent : sends s.log c i = 0)
    (done : er.rc < e99) : (s.deliver c i er).AnsweredOnce c := by
  have written : (s.setSlot c i (sendDcw er)).AnsweredOnce c :=
    once.setSlot (.inl unsent)
  intro j
  have counted := sends_delivered s.log j
    { client := c, cpti := i, rc := er.rc, ecmd5 := er.ecmd5, cw := er.cw }
    rfl
  by_cases same : j = i
  · subst same
    rw [if_pos rfl, unsent] at counted
    refine ⟨counted.le, fun _ slot member => ?_⟩
    have set : (s.setSlot c j (sendDcw er)).slotOf c j = some slot := member
    rw [slotOf_setSlot, if_pos ⟨rfl, rfl⟩] at set
    obtain ⟨_, _, rfl⟩ := Option.map_eq_some_iff.mp set
    exact sendDcw_rc_lt done
  · rw [if_neg same, Nat.add_zero] at counted
    refine ⟨counted.le.trans (once j).1, fun sent => ?_⟩
    exact (written j).2 (counted ▸ sent)

/-! ## Answers from the pipe -/

theorem complete {ert : EcmRequest} (once : s.AnsweredOnce c)
    (unsent : sends s.log c er.cpti = 0) (done : ert.rc < e99) :
    (s.complete c er ert).AnsweredOnce c := by
  refine (once.deliver unsent done).congr ?_ fun _ => rfl
  simp only [Server.complete, distributeEcm]
  split <;> simp

theorem chkDcw (once : s.AnsweredOnce c) : (s.chkDcw c er).AnsweredOnce c := by
  rcases chkDcw_cases s c er with ⟨_, same⟩ | ⟨ert, found, pending, _, ends⟩
  · rw [same]
    exact once
  · have unsent := once.unsent found pending
    rcases ends with ⟨_, same⟩ | ⟨_, _, same⟩ | ⟨_, _, same⟩
    · rw [same]
      refine once.complete unsent ?_
      simp only [foundSlot]
      split
      · rename_i kept
        rcases kept with cached | emulated
        · rw [cached]
          decide
        · rw [emulated]
          decide
      · decide
    · rw [same]
      exact once.setSlot (.inl unsent)
    · rw [same]
      exact complete (s := { s with cache := _ })
        (once.congr rfl fun _ => rfl) unsent
        (show eNotfound < e99 by decide)

/-! ## Waiting slots -/

theorem timeOut (once : s.AnsweredOnce c) (unsent : sends s.log c i = 0) :
    (s.timeOut c i er).AnsweredOnce c :=
  deliver (s := { s with cache := _ }) (once.congr rfl fun _ => rfl) unsent
    (show eTimeout < e99 by decide)

theorem expire (once : s.AnsweredOnce c) (unsent : sends s.log c i = 0) :
    (s.expire c i er).AnsweredOnce c := by
  unfold Server.expire
  split
  · exact once.timeOut unsent
  · dsimp only
    split
    · exact (once.setSlot (.inl unsent)).congr rfl fun _ => rfl
    · exact once.setSlot (.inl unsent)

theorem keepWaiting (once : s.AnsweredOnce c)
    (unsent : sends s.log c i = 0) :
    (s.keepWaiting cfg c i er).AnsweredOnce c := by
  have retried : (s.retry cfg c i er).1.AnsweredOnce c ∧
      (s.retry cfg c i er).1.log = s.log := by
    unfold Server.retry
    split
    · exact ⟨(once.setSlot (.inl unsent)).congr rfl fun _ => rfl, rfl⟩
    · exact ⟨once, rfl⟩
  unfold Server.keepWaiting
  dsimp only
  split
  · exact retried.1.expire (retried.2 ▸ unsent)
  · exact retried.1

theorem chkPendingSlot (once : s.AnsweredOnce c) :
    (Server.chkPendingSlot cfg c s i).AnsweredOnce c := by
  unfold Server.chkPendingSlot
  split
  · exact once
  · rename_i er found
    split
    · exact once
    · rename_i pending
      have unsent := once.unsent found (not_lt.mp pending)
      dsimp only
      split
      · exact deliver (s := { s with cache := _ })
          (once.congr rfl fun _ => rfl) unsent
          (show eCache2 < e99 by decide)
      · exact keepWaiting (s := { s with cache := _ })
          (once.congr rfl fun _ => rfl) unsent

/-! ## Requests -/

theorem withTable (once : s.AnsweredOnce c) :
    (s.withTable c).AnsweredOnce c := by
  intro i
  refine ⟨(once i).1, fun sent er member => ?_⟩
  simp only [slotOf, Server.withTable, clients_modifyClient_self,
    tableOf] at member
  split at member
  · -- a new table: all its slots are done
    obtain rfl : er = EcmRequest.zero :=
      List.eq_of_mem_replicate (List.mem_of_getElem? member)
    decide
  · exact (once i).2 sent er member

/-- A slot is allocated: its count starts again. -/
theorem withTask (once : s.AnsweredOnce c) :
    (s.withTask c i).AnsweredOnce c := by
  intro j
  by_cases same : j = i
  · subst same
    have none : sends (s.withTask c j).log c j = 0 := sends_allocated
    exact ⟨none.le.trans (Nat.zero_le 1), fun sent => absurd none sent⟩
  · have counted : sends (s.withTask c i).log c j = sends s.log c j :=
      sends_allocated_of_ne same
    refine ⟨counted.le.trans (once j).1, fun sent er member => ?_⟩
    have kept : ((s.withTable c).setSlot c i (s.newTask c i)).slotOf c j =
        some er := member
    rw [slotOf_setSlot, if_neg fun both => same both.2] at kept
    exact (once.withTable j).2 (counted ▸ sent) er kept

theorem dispatch (once : s.AnsweredOnce c)
    (unsent : sends s.log c er.cpti = 0) :
    (Server.dispatch cfg s c er).AnsweredOnce c := by
  unfold Server.dispatch
  split
  · exact once.setSlot (.inl unsent)
  · rename_i other
    split
    · rename_i rejected
      refine once.deliver unsent ?_
      simp only [e99, eUnhandled] at other rejected ⊢
      omega
    · exact (once.setSlot (.inl unsent)).congr rfl fun _ => rfl

theorem csDisconnect (once : s.AnsweredOnce c) :
    (s.csDisconnect c).AnsweredOnce c := by
  refine fun i => ⟨(once i).1, fun _ er member => ?_⟩
  simp [slotOf, Server.csDisconnect] at member

theorem csConnect {multi : Bool} {grp : Grp} (once : s.AnsweredOnce c) :
    (s.csConnect c multi grp).AnsweredOnce c := by
  refine fun i => ⟨(once i).1, fun _ er member => ?_⟩
  simp [slotOf, Server.csConnect] at member

theorem request {checks : Checks} {asked : Asked} (once : s.AnsweredOnce c) :
    (s.request cfg checks c asked).AnsweredOnce c := by
  rcases request_cases cfg checks s c asked with
    ⟨_, same⟩ | ⟨i, free, ⟨_, er, corrupt, same⟩ | ⟨_, _, same⟩ |
      ⟨_, er, prepared, same⟩⟩
  · rw [same]
    exact once.withTable
  · rw [same]
    exact once.withTask.setSlot (.inl sends_allocated)
  · rw [same]
    exact once.withTask.csDisconnect
  · rw [same]
    have index : ((s.withTask c i).askCache cfg c er).2.cpti = i := by
      unfold askCache
      split
      · exact (EcmCache.checkAndStore_tags _ prepared.ecmcacheptr).2.1.trans
          prepared.cpti
      · exact prepared.cpti
    refine dispatch (s := { s.withTask c i with cache := _ })
      (once.withTask.congr rfl fun _ => rfl) ?_
    rw [index]
    exact sends_allocated

theorem step (once : s.AnsweredOnce c) (next : ClientStep cfg c s t) :
    t.AnsweredOnce c := by
  cases next with
  | csConnect multi grp => exact once.csConnect
  | csDisconnect => exact once.csDisconnect
  | request checks asked => exact once.request
  | chkDcw er => exact once.chkDcw
  | chkPending i => exact once.chkPendingSlot
  | elsewhere same => exact once.elsewhere same

theorem run (once : s.AnsweredOnce c)
    (steps : Relation.ReflTransGen (ClientStep cfg c) s t) :
    t.AnsweredOnce c := by
  induction steps with
  | refl => exact once
  | tail _ next induction => exact induction.step next

end AnsweredOnce

/-- An answer changes only the slot it is for, and only if that slot holds a
request of its digest. -/
theorem chkDcw_changes {s : Server} {c d : ClientId} {er : EcmRequest}
    {i : Nat} (changed : (s.chkDcw c er).slotOf d i ≠ s.slotOf d i) :
    d = c ∧ i = er.cpti ∧ ∃ ert ∈ s.slotOf c i, ert.ecmd5 = er.ecmd5 := by
  rcases chkDcw_cases s c er with ⟨_, same⟩ | ⟨ert, found, _, fresh, ends⟩
  · exact absurd (congrArg (·.slotOf d i) same) changed
  · -- all three ends write slot `er.cpti` of the client
    have written : ∃ next,
        (s.chkDcw c er).slotOf d i = (s.setSlot c er.cpti next).slotOf d i := by
      rcases ends with ⟨_, same⟩ | ⟨_, _, same⟩ | ⟨_, _, same⟩
      · exact ⟨_, same ▸ slotOf_complete⟩
      · exact ⟨_, congrArg (·.slotOf d i) same⟩
      · exact ⟨_, same ▸ slotOf_complete⟩
    obtain ⟨next, written⟩ := written
    rw [written, slotOf_setSlot] at changed
    split at changed
    · rename_i both
      obtain ⟨rfl, rfl⟩ := both
      refine ⟨rfl, rfl, ert, found, ?_⟩
      simp only [obsolete, Bool.or_eq_false_iff, bne_eq_false_iff_eq] at fresh
      exact fresh.2.symm
    · exact absurd rfl changed

/-- A client that has no table yet and no history. -/
def Unused (s : Server) (c : ClientId) : Prop :=
  (s.clients c).ecmtask = [] ∧ ∀ entry ∈ s.log, entry.client ≠ c

theorem Unused.answeredOnce {s : Server} {c : ClientId}
    (unused : s.Unused c) : s.AnsweredOnce c := by
  intro i
  have none : sends s.log c i = 0 := by
    have counted := sends_append (i := i) [] unused.2
    rwa [List.append_nil] at counted
  refine ⟨none.le.trans (Nat.zero_le 1), fun sent => absurd none sent⟩

/-- In every run of a client a slot is sent at most once between two
allocations, it is done from then on, and the next answer taken changes a slot
only if the digests agree. -/
theorem answered_at_most_once (cfg : Config) (c : ClientId) {s t : Server}
    (unused : s.Unused c) (run : Relation.ReflTransGen (ClientStep cfg c) s t) :
    t.AnsweredOnce c ∧ ∀ er d i,
      (t.chkDcw c er).slotOf d i ≠ t.slotOf d i →
        d = c ∧ i = er.cpti ∧ ∃ ert ∈ t.slotOf c i, ert.ecmd5 = er.ecmd5 := by
  exact ⟨unused.answeredOnce.run run, fun er d i => chkDcw_changes⟩

/-- A client asks, the cache does not know the ECM, and two answers of its
digest arrive. -/
theorem answered_at_most_once_asked :
    let cfg : Config :=
      { ctimeout := 5000, ftimeout := 2000, preferlocalcards := false }
    let asked : Asked :=
      { ecm := [0x80, 0x30, 0x01, 0x07], l := 4, caid := 0x0B00, srvid := 1
        chid := 0, pid := 0, prid := 1, preset := .unhandled }
    let answer : EcmRequest :=
      { EcmRequest.zero with
        caid := 0x0B00, ecmd5 := 7, rc := eRdrFound
        selectedReader := some 0, cw := { Cw.zero with g0 := ⟨1, 2, 3, 6⟩ } }
    let known :=
      ((withReader (networkReader 1 true) 1000000).csConnect 0 true 1).request
        cfg (Checks.passing fun _ => 7) 0 asked
    let served := (known.chkDcw 0 answer).chkDcw 0 answer
    sends known.log 0 0 = 0 ∧ sends served.log 0 0 = 1 ∧
      served.AnsweredOnce 0 := by
  refine ⟨by decide +kernel, by decide +kernel, ?_⟩
  exact (answered_at_most_once _ 0 ⟨rfl, fun _ member => by cases member⟩
    (.tail (.tail (.tail (.tail .refl (.csConnect true 1)) (.request _ _))
      (.chkDcw _)) (.chkDcw _))).1

/-! ## Runs of the whole server -/

end Server

namespace Elsewhere

variable {cfg : Config} {s t u : Server} {c d : ClientId} {r : ReaderId}
  {i : Nat} {er : EcmRequest}

theorem of_eq (clients : t.clients = s.clients) (log : t.log = s.log) :
    Elsewhere c s t :=
  ⟨by rw [clients], [], log, fun _ member => by cases member⟩

theorem refl (s : Server) : Elsewhere c s s := of_eq rfl rfl

theorem trans (first : Elsewhere c s t) (second : Elsewhere c t u) :
    Elsewhere c s u := by
  obtain ⟨older, first', apart⟩ := first.log
  obtain ⟨newer, second', later⟩ := second.log
  refine ⟨second.table.trans first.table, newer ++ older, ?_, ?_⟩
  · rw [second', first', List.append_assoc]
  · intro entry member
    rcases List.mem_append.mp member with new | old
    · exact later entry new
    · exact apart entry old

theorem of_others (log : t.log = s.log)
    (table : (t.clients c).ecmtask = (s.clients c).ecmtask) :
    Elsewhere c s t :=
  ⟨table, [], log, fun _ member => by cases member⟩

theorem withCache (cache : EcmCache) :
    Elsewhere c s { s with cache := cache } :=
  of_eq rfl rfl

theorem csDisconnect (other : c ≠ d) : Elsewhere c s (s.csDisconnect d) :=
  of_others rfl (by
    simp [Server.csDisconnect, Server.clients_modifyClient_of_ne other])

theorem csConnect {multi : Bool} {grp : Grp} (other : c ≠ d) :
    Elsewhere c s (s.csConnect d multi grp) :=
  of_others rfl (by
    simp [Server.csConnect, Server.clients_modifyClient_of_ne other])

theorem modifyClient {f : Client → Client} (other : c ≠ d) :
    Elsewhere c s (s.modifyClient d f) :=
  of_others rfl (by rw [Server.clients_modifyClient_of_ne other])

theorem setSlot (other : c ≠ d) (i : Nat) (er : EcmRequest) :
    Elsewhere c s (s.setSlot d i er) :=
  modifyClient other

theorem deliver (other : c ≠ d) : Elsewhere c s (s.deliver d i er) := by
  refine ⟨(setSlot other i (sendDcw er)).table, [_], rfl, ?_⟩
  simpa [LogEntry.client] using other.symm

theorem complete {ert : EcmRequest} (other : c ≠ d) :
    Elsewhere c s (s.complete d er ert) := by
  have delivered : Elsewhere c s (s.deliver d er.cpti ert) := deliver other
  refine delivered.trans (of_others rfl ?_)
  simp only [Server.complete, Server.distributeEcm]
  split <;> simp

theorem chkDcw (other : c ≠ d) : Elsewhere c s (s.chkDcw d er) := by
  rcases Server.chkDcw_cases s d er with ⟨_, same⟩ | ⟨ert, _, _, _, ends⟩
  · rw [same]
    exact refl s
  · rcases ends with ⟨_, same⟩ | ⟨_, _, same⟩ | ⟨_, _, same⟩
    · rw [same]
      exact complete other
    · rw [same]
      exact setSlot other _ _
    · rw [same]
      exact (withCache _).trans (complete other)

theorem chkPendingSlot (other : c ≠ d) :
    Elsewhere c s (Server.chkPendingSlot cfg d s i) := by
  have askAgain : ∀ {s : Server} {er : EcmRequest} {flag types : Nat},
      Elsewhere c s (s.askAgain d i er flag types) := fun {s er flag types} =>
    (setSlot other i (Server.leveled er flag types)).trans (of_eq rfl rfl)
  have retried : ∀ {s : Server} {er : EcmRequest},
      Elsewhere c s (s.retry cfg d i er).1 := by
    intro s er
    unfold Server.retry
    split
    · exact askAgain
    · exact refl s
  have expired : ∀ {s : Server} {er : EcmRequest},
      Elsewhere c s (s.expire d i er) := by
    intro s er
    unfold Server.expire
    split
    · exact (withCache _).trans (deliver other)
    · dsimp only
      split
      · exact askAgain
      · exact setSlot other _ _
  unfold Server.chkPendingSlot
  split
  · exact refl s
  · split
    · exact refl s
    · dsimp only
      split
      · exact (withCache _).trans (deliver other)
      · unfold Server.keepWaiting
        dsimp only
        split
        · exact ((withCache _).trans retried).trans expired
        · exact (withCache _).trans retried

theorem request {checks : Checks} {asked : Asked} (other : c ≠ d) :
    Elsewhere c s (s.request cfg checks d asked) := by
  have table : Elsewhere c s (s.withTable d) := modifyClient other
  have task : ∀ i, Elsewhere c s (s.withTask d i) := by
    intro i
    refine table.trans ⟨(setSlot other i (s.newTask d i)).table,
      [.allocated d i], rfl, ?_⟩
    simpa [LogEntry.client] using other.symm
  have dispatched : ∀ {s : Server} {er : EcmRequest},
      Elsewhere c s (Server.dispatch cfg s d er) := by
    intro s er
    unfold Server.dispatch
    split
    · exact setSlot other _ _
    · split
      · exact deliver other
      · exact (setSlot other _ _).trans (of_eq rfl rfl)
  rcases Server.request_cases cfg checks s d asked with
    ⟨_, same⟩ | ⟨i, _, ⟨_, er, _, same⟩ | ⟨_, _, same⟩ | ⟨_, er, _, same⟩⟩
  · rw [same]
    exact table
  · rw [same]
    exact (task i).trans (setSlot other _ _)
  · rw [same]
    exact (task i).trans (csDisconnect other)
  · rw [same]
    exact ((task i).trans (withCache _)).trans dispatched

/-! ### The readers -/

theorem writeEcmAnswer : Elsewhere c s (s.writeEcmAnswer r er) := by
  rw [Server.writeEcmAnswer_eq]
  refine of_others rfl ?_
  dsimp only
  split <;> simp

theorem recordAnswer : Elsewhere c s (s.recordAnswer r er) := of_eq rfl rfl

theorem modifyReader {f : Reader → Reader} :
    Elsewhere c s (s.modifyReader r f) := of_eq rfl rfl

theorem setTask : Elsewhere c s (s.setTask r i er) := of_eq rfl rfl

theorem answerTask : Elsewhere c s (s.answerTask r er) :=
  recordAnswer.trans writeEcmAnswer

theorem cascCheckSlot {idx : Nat} {rc : Int} {cw : Cw} :
    Elsewhere c s (Server.cascCheckSlot cfg r idx rc cw s i) := by
  unfold Server.cascCheckSlot
  split
  · split
    · exact answerTask.trans setTask
    · exact setTask
  · exact refl s

theorem cascCheckDcw {idx : Nat} {rc : Int} {cw : Cw} :
    Elsewhere c s (Server.cascCheckDcw cfg r idx rc cw s) := by
  unfold Server.cascCheckDcw
  generalize List.range csMaxpending = slots
  induction slots generalizing s with
  | nil => exact refl s
  | cons i slots induction => exact cascCheckSlot.trans induction

theorem cascProcessEcm {handling : Handling} :
    Elsewhere c s (s.cascProcessEcm cfg handling r er) := by
  unfold Server.cascProcessEcm
  dsimp only
  split
  · exact modifyReader
  · split
    · exact (modifyReader.trans setTask).trans cascCheckDcw
    · exact modifyReader.trans setTask

theorem readerGetEcm {handling : Handling} :
    Elsewhere c s (s.readerGetEcm cfg handling r er) := by
  unfold Server.readerGetEcm
  split
  · exact refl s
  · dsimp only
    split
    · exact writeEcmAnswer
    · split
      · exact (withCache _).trans writeEcmAnswer
      · split
        · exact (withCache _).trans cascProcessEcm
        · exact (withCache _).trans answerTask

theorem directAnswer {rcEx : Nat} {cw : Option Cw} :
    Elsewhere c s (s.directAnswer r i rcEx cw) := by
  unfold Server.directAnswer
  split
  · exact refl s
  · split
    · exact refl s
    · exact writeEcmAnswer.trans setTask

theorem dropTask : Elsewhere c s (s.dropTask r i) := by
  unfold Server.dropTask
  split
  · exact refl s
  · exact setTask

theorem popReader : Elsewhere c s (s.popReader r) := modifyReader

theorem popClient : Elsewhere c s (s.popClient d) := by
  refine of_others rfl ?_
  by_cases same : c = d
  · subst same
    simp [Server.popClient]
  · exact (modifyClient same).table

end Elsewhere

namespace Server

/-- What a step of the server is for one client. -/
theorem step_clientRun (cfg : Config) (c : ClientId) (s : Server)
    (event : Event) :
    Relation.ReflTransGen (ClientStep cfg c) s (s.step cfg event) := by
  have elsewhere : ∀ {t}, Elsewhere c s t →
      Relation.ReflTransGen (ClientStep cfg c) s t :=
    fun same => .single (.elsewhere same)
  cases event with
  | advance ms => exact elsewhere (.of_eq rfl rfl)
  | connect d multi grp =>
      unfold step
      dsimp only
      split
      · exact .refl
      · by_cases same : c = d
        · exact same ▸ .single (.csConnect multi grp)
        · exact elsewhere (Elsewhere.csConnect same)
  | disconnect d =>
      by_cases same : c = d
      · exact same ▸ .single .csDisconnect
      · exact elsewhere (Elsewhere.csDisconnect same)
  | request d checks asked =>
      unfold step
      dsimp only
      split
      · by_cases same : c = d
        · exact same ▸ .single (.request checks asked)
        · exact elsewhere (.request same)
      · exact .refl
  | takePipe d =>
      unfold step
      dsimp only
      split
      · exact .refl
      · refine (elsewhere (Elsewhere.popClient (d := d))).tail ?_
        by_cases same : c = d
        · exact same ▸ .chkDcw _
        · exact .elsewhere (.chkDcw same)
  | pending d i =>
      by_cases same : c = d
      · exact same ▸ .single (.chkPending i)
      · exact elsewhere (.chkPendingSlot same)
  | readerTakePipe r handling =>
      unfold step
      dsimp only
      split
      · exact .refl
      · exact elsewhere (Elsewhere.popReader.trans .readerGetEcm)
  | cascCheck r idx rc cw i => exact elsewhere .cascCheckSlot
  | direct r i rcEx cw => exact elsewhere .directAnswer
  | dropTask r i => exact elsewhere .dropTask

/-- In every run of the server every client is answered at most once. -/
theorem answeredOnce_reached {cfg : Config} {guard : Server → Event → Prop}
    {s : Server} (run : StepSystem.Reach (step cfg) guard Started s)
    (c : ClientId) : s.AnsweredOnce c := by
  refine @StepSystem.Reach.invariant _ _ _ _ _ (·.AnsweredOnce c) ?_ ?_ s run
  · intro s start
    refine Unused.answeredOnce ⟨(start.clients c).1, fun entry member => ?_⟩
    rw [start.log] at member
    cases member
  · exact fun s event once _ => once.run (step_clientRun cfg c s event)

/-- A client asks twice. -/
theorem answeredOnce_reached_asking :
    let cfg : Config :=
      { ctimeout := 5000, ftimeout := 2000, preferlocalcards := false }
    let asked : Asked :=
      { ecm := [0x80, 0x30, 0x01, 0x07], l := 4, caid := 0x0B00, srvid := 1
        chid := 0, pid := 0, prid := 1, preset := .unhandled }
    let request := Event.request 0 (Checks.passing fun _ => 7) asked
    ([Event.connect 0 true 1, request, request].foldl (step cfg)
      (withReader (networkReader 1 true) 1000000)).AnsweredOnce 0 := by
  intro cfg asked request
  have run : StepSystem.Reach (step cfg) (fun _ _ => True) Started
      ([Event.connect 0 true 1, request, request].foldl (step cfg)
        (withReader (networkReader 1 true) 1000000)) :=
    .run (.start (started_withReader 1 true 1000000))
      ⟨trivial, trivial, trivial, trivial⟩
  exact answeredOnce_reached run 0

end Server

end Oscam
