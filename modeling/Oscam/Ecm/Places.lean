import Oscam.Ecm.Readers

/-!
# What is known of a request by the place it is kept in

Requests are copied between the tables of the clients, their pipes, the pipes
of the readers and the tables of the readers.  `Keeps` states one property for
each of these places; the lemmas say what each primitive of the server has to
know of the request it puts somewhere.
-/

namespace Oscam

/-- A property of the requests in each place. -/
structure Places where
  slot : ClientId → Nat → EcmRequest → Prop
  message : EcmRequest → Prop
  asked : EcmRequest → Prop
  task : EcmRequest → Prop

namespace Places

def OfClient (places : Places) (c : ClientId) (cl : Client) : Prop :=
  (∀ i er, cl.ecmtask[i]? = some er → places.slot c i er) ∧
    ∀ er ∈ cl.pipe, places.message er

def OfReader (places : Places) (rdr : Reader) : Prop :=
  (∀ er ∈ rdr.pipe, places.asked er) ∧ ∀ er ∈ rdr.ecmtask, places.task er

end Places

namespace Server

/-- Every request kept by the server has the property of its place. -/
structure Keeps (places : Places) (s : Server) : Prop where
  clients : ∀ c, places.OfClient c (s.clients c)
  readers : ∀ r, places.OfReader (s.readers r)

namespace Keeps

variable {places : Places} {s t : Server} {c : ClientId} {r : ReaderId}
  {i : Nat} {er : EcmRequest}

/-- The other parts of the server do not matter. -/
theorem congr (keeps : Keeps places s) (clients : t.clients = s.clients)
    (readers : t.readers = s.readers) : Keeps places t :=
  ⟨clients ▸ keeps.clients, readers ▸ keeps.readers⟩

theorem mono {weaker : Places} (keeps : Keeps places s)
    (slot : ∀ c i er, places.slot c i er → weaker.slot c i er)
    (message : ∀ er, places.message er → weaker.message er)
    (asked : ∀ er, places.asked er → weaker.asked er)
    (task : ∀ er, places.task er → weaker.task er) : Keeps weaker s :=
  { clients := fun c =>
      ⟨fun i er member => slot c i er ((keeps.clients c).1 i er member),
        fun er member => message er ((keeps.clients c).2 er member)⟩
    readers := fun r =>
      ⟨fun er member => asked er ((keeps.readers r).1 er member),
        fun er member => task er ((keeps.readers r).2 er member)⟩ }

theorem modifyClient {f : Client → Client} (keeps : Keeps places s)
    (kept : places.OfClient c (f (s.clients c))) :
    Keeps places (s.modifyClient c f) := by
  refine ⟨fun d => ?_, keeps.readers⟩
  by_cases same : d = c
  · subst same
    simpa using kept
  · rw [clients_modifyClient_of_ne same]
    exact keeps.clients d

theorem modifyReader {f : Reader → Reader} (keeps : Keeps places s)
    (kept : places.OfReader (f (s.readers r))) :
    Keeps places (s.modifyReader r f) := by
  refine ⟨keeps.clients, fun q => ?_⟩
  by_cases same : q = r
  · subst same
    simpa using kept
  · rw [readers_modifyReader_of_ne same]
    exact keeps.readers q

theorem setSlot (keeps : Keeps places s) (slot : places.slot c i er) :
    Keeps places (s.setSlot c i er) := by
  refine keeps.modifyClient ⟨fun j old found => ?_, (keeps.clients c).2⟩
  rw [List.getElem?_set] at found
  split at found
  · rename_i same
    split at found
    · cases found
      exact same ▸ slot
    · cases found
  · exact (keeps.clients c).1 j old found

theorem deliver (keeps : Keeps places s)
    (slot : places.slot c i (sendDcw er)) :
    Keeps places (s.deliver c i er) :=
  (keeps.setSlot slot).congr rfl rfl

theorem setTask (keeps : Keeps places s) (task : places.task er) :
    Keeps places (s.setTask r i er) := by
  refine keeps.modifyReader ⟨(keeps.readers r).1, fun old member => ?_⟩
  rcases List.mem_or_eq_of_mem_set member with older | rfl
  · exact (keeps.readers r).2 old older
  · exact task

/-- The answers that are distributed concern only the slots that take them. -/
theorem distributeEcm {grp : Grp} {rc : Int} (keeps : Keeps places s)
    (message : ∀ c ∈ s.clientList, (s.clients c).grp &&& grp ≠ 0 →
      (s.clients c).pipe.length < pipeMax →
        ∀ slot ∈ (s.clients c).ecmtask, receives er slot →
          places.message { er with rc := rc, cpti := slot.cpti }) :
    Keeps places (s.distributeEcm er grp rc) := by
  refine ⟨fun c => ?_, keeps.readers⟩
  simp only [Server.distributeEcm]
  split
  · rename_i present
    refine ⟨?_, fun answer member => ?_⟩
    · rw [Client.distribute_ecmtask]
      exact (keeps.clients c).1
    · rcases Client.mem_distribute member with
        old | ⟨fits, room, slot, listed, received, rfl⟩
      · exact (keeps.clients c).2 answer old
      · exact message c present fits room slot listed received
  · exact keeps.clients c

theorem writeEcmAnswer (keeps : Keeps places s)
    (message : places.message (answerOf r (s.readers r) er)) :
    Keeps places (s.writeEcmAnswer r er) := by
  rw [writeEcmAnswer_eq]
  refine ⟨fun c => ?_, keeps.readers⟩
  dsimp only
  split
  · refine ⟨?_, fun answer member => ?_⟩
    · rw [Client.write_ecmtask]
      exact (keeps.clients c).1
    · rcases Client.mem_write member with old | ⟨_, rfl⟩
      · exact (keeps.clients c).2 answer old
      · exact message
  · exact keeps.clients c

theorem answerTask (keeps : Keeps places s)
    (message : places.message (answerOf r (s.readers r) er)) :
    Keeps places (s.answerTask r er) := by
  have recorded : Keeps places (s.recordAnswer r er) := keeps.congr rfl rfl
  exact recorded.writeEcmAnswer message

theorem requestCw {flag types : Nat} (keeps : Keeps places s)
    (asked : places.asked (leveled er flag types)) :
    Keeps places (s.requestCw er flag types) := by
  refine ⟨keeps.clients, fun r => ?_⟩
  simp only [Server.requestCw]
  split
  · refine ⟨fun question member => ?_, ?_⟩
    · rcases Reader.mem_write member with old | rfl
      · exact (keeps.readers r).1 question old
      · exact asked
    · rw [Reader.write_ecmtask]
      exact (keeps.readers r).2
  · exact keeps.readers r

theorem askAgain {flag types : Nat} (keeps : Keeps places s)
    (slot : places.slot c i (leveled er flag types))
    (asked : places.asked (leveled er flag types)) :
    Keeps places (s.askAgain c i er flag types) :=
  (keeps.setSlot slot).requestCw asked

theorem popClient (keeps : Keeps places s) : Keeps places (s.popClient c) :=
  keeps.modifyClient ⟨(keeps.clients c).1, fun er member =>
    (keeps.clients c).2 er (List.mem_of_mem_tail member)⟩

theorem popReader (keeps : Keeps places s) : Keeps places (s.popReader r) :=
  keeps.modifyReader ⟨fun er member =>
    (keeps.readers r).1 er (List.mem_of_mem_tail member), (keeps.readers r).2⟩

theorem csDisconnect (keeps : Keeps places s) :
    Keeps places (s.csDisconnect c) :=
  (keeps.modifyClient (f := fun cl => { cl with ecmtask := [], pipe := [] })
    ⟨by simp, by simp⟩).congr rfl rfl

theorem csConnect {multi : Bool} {grp : Grp} (keeps : Keeps places s) :
    Keeps places (s.csConnect c multi grp) :=
  (keeps.modifyClient (f := fun _ =>
      { multi := multi, grp := grp, ecmtask := [], pipe := [] })
    ⟨by simp, by simp⟩).congr rfl rfl

/-- A table that is allocated holds empty slots. -/
theorem withTable (keeps : Keeps places s)
    (empty : ∀ i, places.slot c i EcmRequest.zero) :
    Keeps places (s.withTable c) := by
  refine keeps.modifyClient ⟨fun i er found => ?_, (keeps.clients c).2⟩
  simp only [tableOf] at found
  split at found
  · have member := List.mem_of_getElem? found
    rw [List.eq_of_mem_replicate member]
    exact empty i
  · exact (keeps.clients c).1 i er found

theorem withTask (keeps : Keeps places s)
    (empty : ∀ i, places.slot c i EcmRequest.zero)
    (fresh : places.slot c i (s.newTask c i)) :
    Keeps places (s.withTask c i) :=
  ((keeps.withTable empty).setSlot fresh).congr rfl rfl

end Keeps

theorem keeps_started {places : Places} {s : Server} (started : Started s)
    (task : places.task EcmRequest.zero) : Keeps places s := by
  refine ⟨fun c => ?_, fun r => ?_⟩
  · obtain ⟨table, pipe⟩ := started.clients c
    simp [Places.OfClient, table, pipe]
  · obtain ⟨pipe, tasks⟩ := started.readers r
    refine ⟨by simp [pipe], fun er member => ?_⟩
    rw [tasks er member]
    exact task

end Server

end Oscam
