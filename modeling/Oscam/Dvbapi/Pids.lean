import Oscam.Dvbapi.Capmt

/-!
# The pids of a message

The tables get from a message a list of streams and ECM pids.  The list does not
depend on the ECM pids that are there already.
-/

namespace Oscam.Dvbapi

/-- What is added to the tables. -/
inductive Pid where
  | stream (pid : UInt16)
  | ecm (caid ecmpid : UInt16) (provid : UInt32)
  deriving DecidableEq, Repr

def Demux.add (d : Demux) : Pid → Demux
  | .stream pid =>
      if room : d.streamPids.length < ecmPids then addStream d room pid else d
  | .ecm caid ecmpid provid => d.addEcmpid caid ecmpid provid

def Demux.addAll (d : Demux) (pids : List Pid) : Demux := pids.foldl Demux.add d

/-! ## The list -/

/-- The ECM pids of a descriptor. -/
def descriptorPids (m : Memory) (p : Nat) : List Pid :=
  let caid := UInt16.ofNat (word m (p + 2))
  if m p ≠ 0x09 then []
  else if (m (p + 2)).toNat = 0x01 then
    (secaPids (m (p + 1)).toNat).map fun u =>
      .ecm caid (UInt16.ofNat (bits13 m (p + 2 + u)))
        (UInt32.ofNat (word m (p + 2 + u + 2)))
  else
    [.ecm caid (UInt16.ofNat (bits13 m (p + 4)))
      (UInt32.ofNat (descriptorProvider m p))]

/-- The ECM pids of the program or of a stream. -/
def areaPids (m : Memory) (base infoLength : Nat) : List Pid :=
  if infoLength < 1 then []
  else (descriptorPlaces m base infoLength).flatMap (descriptorPids m)

/-- A stream with its ECM pids. -/
def streamGroup (m : Memory) (length p : Nat) : List Pid :=
  let esInfoLength := bits12 m (p + 3)
  .stream (UInt16.ofNat (bits13 m (p + 1))) ::
    if esInfoLength ≠ 0 ∧ esInfoLength < length then
      areaPids m (p + 5) esInfoLength
    else []

/-- The ECM pids of the program. -/
def programPids (m : Memory) (base length : Nat) : List Pid :=
  let programInfoLength := bits12 m (base + 4)
  if programInfoLength > 1 ∧ programInfoLength < length then
    areaPids m (base + 9) (programInfoLength - 1)
  else []

/-- The pids of a message, with room for so many streams. -/
def capmtPids (m : Memory) (base length room : Nat) : List Pid :=
  programPids m base length ++
    ((streamPlaces m base length).take room).flatMap (streamGroup m length)

/-! ## The tables -/

/-- A full table stays as it is. -/
theorem addEcmpid_of_full {d : Demux} (full : ecmPids ≤ d.ecmPidCount)
    (caid ecmpid : UInt16) (provid : UInt32) :
    d.addEcmpid caid ecmpid provid = d :=
  dif_neg (Nat.not_lt.mpr full)

@[simp] theorem streamPids_addEcmpid (d : Demux) (caid ecmpid : UInt16)
    (provid : UInt32) :
    (d.addEcmpid caid ecmpid provid).streamPids = d.streamPids := by
  unfold Demux.addEcmpid
  split_ifs <;> rfl

theorem addDescriptor_eq (m : Memory) (d : Demux) (p : Nat) :
    addDescriptor m d p = d.addAll (descriptorPids m p) := by
  unfold addDescriptor descriptorPids Demux.addAll
  dsimp only
  split_ifs
  · rfl
  · rw [List.foldl_map]
    rfl
  · rfl

theorem addAll_of_full {d : Demux} (full : ecmPids ≤ d.ecmPidCount)
    {pids : List Pid} (ecm : ∀ pid, Pid.stream pid ∉ pids) :
    d.addAll pids = d := by
  induction pids with
  | nil => rfl
  | cons pid rest induction =>
      cases pid with
      | stream pid => exact absurd List.mem_cons_self (ecm pid)
      | ecm caid ecmpid provid =>
          rw [Demux.addAll, List.foldl_cons, Demux.add,
            addEcmpid_of_full full]
          exact induction
            fun pid member => ecm pid (List.mem_cons_of_mem _ member)

theorem stream_notMem_descriptorPids (m : Memory) (p : Nat) (pid : UInt16) :
    Pid.stream pid ∉ descriptorPids m p := by
  unfold descriptorPids
  dsimp only
  split_ifs
  · exact List.not_mem_nil
  · simp
  · simp

theorem addDescriptors_eq (m : Memory) (places : List Nat) (d : Demux) :
    addDescriptors m places d =
      d.addAll (places.flatMap (descriptorPids m)) := by
  induction places generalizing d with
  | nil => rfl
  | cons p rest induction =>
      rw [addDescriptors]
      split
      · rename_i full
        refine (addAll_of_full full ?_).symm
        intro pid member
        obtain ⟨place, _member, here⟩ := List.mem_flatMap.mp member
        exact stream_notMem_descriptorPids m place pid here
      · rw [induction, addDescriptor_eq, List.flatMap_cons, Demux.addAll,
          Demux.addAll, Demux.addAll, List.foldl_append]

theorem parseDescriptor_eq (m : Memory) (base infoLength : Nat) (d : Demux) :
    parseDescriptor m base infoLength d =
      d.addAll (areaPids m base infoLength) := by
  unfold parseDescriptor areaPids
  split
  · rfl
  · exact addDescriptors_eq m _ d

theorem stream_notMem_areaPids (m : Memory) (base infoLength : Nat)
    (pid : UInt16) : Pid.stream pid ∉ areaPids m base infoLength := by
  unfold areaPids
  split
  · exact List.not_mem_nil
  · intro member
    obtain ⟨place, _member, here⟩ := List.mem_flatMap.mp member
    exact stream_notMem_descriptorPids m place pid here

theorem streamPids_addAll {pids : List Pid}
    (ecm : ∀ pid, Pid.stream pid ∉ pids) (d : Demux) :
    (d.addAll pids).streamPids = d.streamPids := by
  induction pids generalizing d with
  | nil => rfl
  | cons pid rest induction =>
      cases pid with
      | stream pid => exact absurd List.mem_cons_self (ecm pid)
      | ecm caid ecmpid provid =>
          rw [Demux.addAll, List.foldl_cons]
          refine (induction
            (fun pid member => ecm pid (List.mem_cons_of_mem _ member)) _).trans
            ?_
          exact streamPids_addEcmpid d caid ecmpid provid

@[simp] theorem streamPids_parseDescriptor (m : Memory) (base infoLength : Nat)
    (d : Demux) :
    (parseDescriptor m base infoLength d).streamPids = d.streamPids := by
  rw [parseDescriptor_eq]
  exact streamPids_addAll (stream_notMem_areaPids m base infoLength) d

/-- The demux after a turn of the loop over the streams. -/
def addStreamTurn (m : Memory) (length : Nat) (d : Demux)
    (room : d.streamPids.length < ecmPids) (p : Nat) : Demux :=
  let added := addStream d room (UInt16.ofNat (bits13 m (p + 1)))
  let esInfoLength := bits12 m (p + 3)
  if esInfoLength ≠ 0 ∧ esInfoLength < length then
    parseDescriptor m (p + 5) esInfoLength added
  else added

theorem addStreamTurn_eq (m : Memory) (length : Nat) (d : Demux)
    (room : d.streamPids.length < ecmPids) (p : Nat) :
    addStreamTurn m length d room p = d.addAll (streamGroup m length p) := by
  unfold addStreamTurn streamGroup
  dsimp only
  rw [Demux.addAll, List.foldl_cons, Demux.add, dif_pos room]
  split
  · exact parseDescriptor_eq ..
  · rfl

theorem length_addStreamTurn (m : Memory) (length : Nat) (d : Demux)
    (room : d.streamPids.length < ecmPids) (p : Nat) :
    (addStreamTurn m length d room p).streamPids.length =
      d.streamPids.length + 1 := by
  unfold addStreamTurn
  dsimp only
  split
  · rw [streamPids_parseDescriptor]
    exact List.length_append
  · exact List.length_append

theorem addStreams_eq (m : Memory) (length : Nat) (places : List Nat)
    (d : Demux) :
    addStreams m length places d =
      d.addAll ((places.take (ecmPids - d.streamPids.length)).flatMap
        (streamGroup m length)) := by
  induction places generalizing d with
  | nil => rw [List.take_nil]; rfl
  | cons p rest induction =>
      rw [addStreams]
      split
      · rename_i room
        refine (induction (addStreamTurn m length d room p)).trans ?_
        rw [length_addStreamTurn, addStreamTurn_eq, Nat.sub_add_eq]
        obtain ⟨left, some⟩ :=
          Nat.exists_eq_succ_of_ne_zero (Nat.sub_ne_zero_of_lt room)
        rw [some, Nat.succ_sub_one, List.take_succ_cons, List.flatMap_cons,
          Demux.addAll, Demux.addAll, Demux.addAll, List.foldl_append]
      · rename_i full
        rw [Nat.sub_eq_zero_of_le (Nat.not_lt.mp full), List.take_zero]
        rfl

/-- The pids of a message are added to the tables. -/
theorem addPids_eq (m : Memory) (base length : Nat) (d : Demux) :
    addPids m base length d =
      d.addAll (capmtPids m base length (ecmPids - d.streamPids.length)) := by
  unfold addPids capmtPids programPids
  dsimp only
  rw [addStreams_eq]
  split
  · rw [streamPids_parseDescriptor, parseDescriptor_eq, Demux.addAll,
      Demux.addAll, Demux.addAll, List.foldl_append]
  · rfl

/-- What adding a stream or an ECM pid keeps, the pids of a message keep. -/
theorem addPids_keeps (Holds : Demux → Prop)
    (step : ∀ d pid, Holds d → Holds (d.add pid)) (m : Memory)
    (base length : Nat) {d : Demux} (start : Holds d) :
    Holds (addPids m base length d) := by
  rw [addPids_eq]
  induction capmtPids m base length (ecmPids - d.streamPids.length)
    generalizing d with
  | nil => exact start
  | cons pid rest induction => exact induction (step d pid start)

end Oscam.Dvbapi
