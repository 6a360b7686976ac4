import Oscam.Stat.Turns

/-!
# What `get_best_reader` does to the records

Each record behind a call is one of those before it: it has got its length, it
was reset, its factor was limited because its reopen time was asked for, or it
was marked as retried.
-/

namespace Oscam.Stat

/-! ## One record -/

/-- One change of a record. -/
inductive Touch where
  | looked (ecmlen : Int)
  | reset
  | asked
  | retried (time : Int)
  deriving DecidableEq, Repr

def Touch.apply (cfg : LbCfg) (stat : ReaderStat) : Touch → ReaderStat
  | .looked ecmlen => { stat with ecmlen := ecmlen }
  | .reset =>
      { stat with
        ecmCount := if stat.ecmCount > 0 then 1 else stat.ecmCount
        rc := 0
        failFactor := 0 }
  | .asked => (getReopenSeconds cfg stat).2
  | .retried time => { stat with lastReceived := time }

/-- The changes that one call makes, in their order. -/
def touchAll (cfg : LbCfg) (touches : List Touch) (stat : ReaderStat) :
    ReaderStat :=
  touches.foldl (Touch.apply cfg) stat

/-- A record becomes another one by such changes. -/
def Becomes (cfg : LbCfg) (before after : ReaderStat) : Prop :=
  ∃ touches, touchAll cfg touches before = after

namespace Becomes

variable {cfg : LbCfg}

theorem refl (stat : ReaderStat) : Becomes cfg stat stat := ⟨[], rfl⟩

theorem touch (stat : ReaderStat) (touch : Touch) :
    Becomes cfg stat (touch.apply cfg stat) := ⟨[touch], rfl⟩

theorem trans {first second third : ReaderStat}
    (earlier : Becomes cfg first second) (later : Becomes cfg second third) :
    Becomes cfg first third := by
  obtain ⟨before, rfl⟩ := earlier
  obtain ⟨behind, rfl⟩ := later
  exact ⟨before ++ behind, List.foldl_append⟩

end Becomes

/-! ## All records -/

/-- Each node of the second list has a record of the first one. -/
def NodesFrom (cfg : LbCfg) (before after : List StatNode) : Prop :=
  ∀ node ∈ after, ∃ old ∈ before, Becomes cfg old.stat node.stat

namespace NodesFrom

variable {cfg : LbCfg} {nodes : List StatNode}

theorem refl (nodes : List StatNode) : NodesFrom cfg nodes nodes :=
  fun node member => ⟨node, member, .refl node.stat⟩

theorem trans {first second third : List StatNode}
    (earlier : NodesFrom cfg first second)
    (later : NodesFrom cfg second third) : NodesFrom cfg first third := by
  intro node member
  obtain ⟨between, inside, second⟩ := later node member
  obtain ⟨old, here, first⟩ := earlier between inside
  exact ⟨old, here, first.trans second⟩

theorem modify {place : Nat} {change : ReaderStat → ReaderStat}
    (becomes : ∀ node, nodes[place]? = some node →
      Becomes cfg node.stat (change node.stat)) :
    NodesFrom cfg nodes (nodes.modify place fun node =>
      { node with stat := change node.stat }) := by
  intro node member
  obtain ⟨i, inside, rfl⟩ := List.mem_iff_getElem.mp member
  rw [List.length_modify] at inside
  refine ⟨nodes[i], List.getElem_mem inside, ?_⟩
  rw [List.getElem_modify]
  split
  · rename_i here
    exact becomes nodes[i] (by rw [here, List.getElem?_eq_getElem inside])
  · exact .refl _

theorem moveFirst (place : Nat) :
    NodesFrom cfg nodes (moveFirst nodes place).1 := by
  unfold Stat.moveFirst
  cases found : nodes[place]? with
  | none => exact refl nodes
  | some node =>
      have here := List.mem_of_getElem? found
      dsimp only
      split
      · intro other member
        rcases List.mem_cons.mp member with rfl | rest
        · exact ⟨node, here, .refl _⟩
        · exact refl nodes other (List.mem_of_mem_eraseIdx rest)
      · intro other member
        rcases List.mem_or_eq_of_mem_set member with rest | rfl
        · exact refl nodes other rest
        · exact ⟨node, here, .refl _⟩

theorem getStatNodes (settings : LbCfg) (nodes : List StatNode)
    (caid prid srvid : Nat) (ecmlen : Int) :
    NodesFrom cfg nodes
      (getStatNodes settings nodes caid prid srvid ecmlen).1 := by
  have length (place : Nat) : NodesFrom cfg nodes
      (nodes.modify place fun node =>
        { node with stat := { node.stat with ecmlen := ecmlen } }) :=
    @modify cfg nodes place (fun stat => { stat with ecmlen := ecmlen })
      fun node _ => .touch node.stat (.looked ecmlen)
  unfold Stat.getStatNodes
  dsimp only
  split
  · exact refl nodes
  · rename_i place _
    split
    · exact (length place).trans (moveFirst place)
    · exact length place

end NodesFrom

/-- Each record of each reader comes from one that it had before. -/
def Touched (cfg : LbCfg) (s t : LbState) : Prop :=
  ∀ r, NodesFrom cfg (s.readers r).lbStat (t.readers r).lbStat

namespace Touched

variable {cfg : LbCfg} {s t u : LbState}

theorem refl (s : LbState) : Touched cfg s s := fun _ => NodesFrom.refl _

theorem trans (earlier : Touched cfg s t) (later : Touched cfg t u) :
    Touched cfg s u :=
  fun r => (earlier r).trans (later r)

theorem setReader {rdr : ReaderId} {reader : LbReader}
    (nodes : NodesFrom cfg (s.readers rdr).lbStat reader.lbStat) :
    Touched cfg s (s.setReader rdr reader) := by
  intro r
  unfold LbState.setReader
  dsimp only
  by_cases here : r = rdr
  · rw [here, Function.update_self]
    exact nodes
  · rw [Function.update_of_ne here]
    exact NodesFrom.refl _

theorem getStat (settings : LbCfg) (s : LbState) (rdr : ReaderId)
    (caid prid srvid : Nat) (ecmlen : Int) :
    Touched cfg s (s.getStat settings rdr caid prid srvid ecmlen).1 :=
  setReader (NodesFrom.getStatNodes settings _ caid prid srvid ecmlen)

theorem modifyStat {rdr : ReaderId} {place : Nat}
    {change : ReaderStat → ReaderStat}
    (becomes : ∀ stat, s.stat rdr place = some stat →
      Becomes cfg stat (change stat)) :
    Touched cfg s (s.modifyStat rdr place change) := by
  apply setReader
  apply NodesFrom.modify
  intro node found
  apply becomes
  unfold LbState.stat
  rw [found]
  rfl

theorem resetStat (settings : LbCfg) (caid prid srvid : Nat) (ecmlen : Int)
    (s : LbState) :
    Touched cfg s (resetStat settings caid prid srvid ecmlen s) := by
  unfold Stat.resetStat
  generalize s.active = readers
  induction readers generalizing s with
  | nil => exact refl s
  | cons rdr readers induction =>
      rw [List.foldl_cons]
      refine trans ?_ (induction _)
      split
      · have looked := @getStat cfg settings s rdr caid prid srvid ecmlen
        split
        · rename_i found
          rw [found] at looked
          exact looked
        · rename_i found
          rw [found] at looked
          exact looked.trans (modifyStat fun stat _ => .touch stat .reset)
      · exact refl s

end Touched

/-! ## The phases -/

section Phases

variable (env : LbEnv) (er : EcmRequest) (prid : Nat)

theorem autoBetatunnel_touched (s : LbState) (rdrs : List ReaderId) :
    Touched env.cfg s (autoBetatunnel env s er prid rdrs).1 := by
  have compared (caidTo : Nat) (t : Tunnel) :
      Touched env.cfg t.s (compareTunnels env er prid caidTo rdrs t).s := by
    induction rdrs generalizing t with
    | nil => exact Touched.refl t.s
    | cons rdr rdrs induction =>
        rw [compareTunnels]
        split
        · exact Touched.refl t.s
        · refine Touched.trans ?_ (induction _)
          exact (Touched.getStat _ _ _ _ _ _ _).trans
            (Touched.getStat _ _ _ _ _ _ _)
  unfold autoBetatunnel
  split
  · split
    · exact Touched.refl s
    · rename_i caidTo _
      have whole := compared caidTo
        { s := s, needsNagra := false, needsBeta := false, timeNagra := 0
          timeBeta := 0 }
      dsimp only
      split
      · exact whole
      · split
        · exact whole
        · exact whole
  · exact Touched.refl s

theorem learn_touched (retrylimit : Int) (rdrs : List ReaderId)
    (v : Learning) :
    Touched env.cfg v.s (learn env er prid retrylimit rdrs v).s := by
  induction rdrs generalizing v with
  | nil => exact Touched.refl v.s
  | cons rdr rdrs induction =>
      rw [learn]
      split
      · exact Touched.refl v.s
      · refine Touched.trans ?_ (induction _)
        have looked := @Touched.getStat env.cfg env.cfg v.s rdr er.caid prid
          er.srvid (int16 er.l)
        rw [learnReader_eq]
        cases statFor env er prid v.s rdr with
        | none => exact looked
        | some stat =>
            dsimp only
            split
            · exact looked.trans (Touched.resetStat _ _ _ _ _ _)
            · split
              · exact looked
              · split
                · obtain ⟨last, shown⟩ := (selectReader_compares env
                    (v.looked env er prid rdr) rdr stat).shown
                  rw [shown]
                  exact looked.trans (Touched.setReader (NodesFrom.refl _))
                · exact looked

theorem chooseBest_touched (timeoutServices : List ReaderId) (fuel : Nat)
    (v : Choosing) :
    Touched env.cfg v.s (chooseBest env timeoutServices fuel v).s := by
  induction fuel generalizing v with
  | zero => exact Touched.refl v.s
  | succ fuel induction =>
      rw [chooseBest]
      split
      · exact Touched.refl v.s
      · split
        · exact Touched.refl v.s
        · rename_i best place _
          have turn : Touched env.cfg v.s
              (takeBest env timeoutServices v best place).1.s := by
            obtain ⟨_, primary | ended⟩ :=
              takeBest_turn env timeoutServices v best place
            · rw [primary.s]
              exact Touched.setReader (NodesFrom.refl _)
            · rw [ended.s]
              exact Touched.refl v.s
          dsimp only
          split
          · exact turn.trans (induction _)
          · exact turn

theorem chooseReaders_touched (s : LbState) (matching : LList) :
    Touched env.cfg s (chooseReaders env s er prid matching).2.s := by
  dsimp only [chooseReaders]
  refine Touched.trans ?_ (chooseBest_touched env _ _ _)
  exact learn_touched env er prid _ _
    { s := s, result := createBehind matching, selected := []
      timeoutServices := []
      nreaders := if env.cfg.lbMaxReaders = 0 then -1
        else env.cfg.lbMaxReaders
      newStats := false, nlocalReaders := 0
      newNulltime := { time := 0, millitm := 0 } }

theorem reopenReader_touched (v : Reopening) (rdr : ReaderId) :
    Touched env.cfg v.s (reopenReader env er prid v rdr).s := by
  have looked := @Touched.getStat env.cfg env.cfg v.s rdr er.caid prid er.srvid
    (int16 er.l)
  unfold reopenReader
  generalize v.s.getStat env.cfg rdr er.caid prid er.srvid (int16 er.l) = found
    at looked ⊢
  obtain ⟨s, place⟩ := found
  dsimp only at looked ⊢
  cases place with
  | none => exact looked
  | some place =>
      rw [Option.bind_some]
      cases known : s.stat rdr place with
      | none => exact looked
      | some stat =>
          dsimp only
          split
          · have asked : Touched env.cfg s (s.modifyStat rdr place
                fun _ => (getReopenSeconds env.cfg stat).2) := by
              apply Touched.modifyStat
              intro old same
              rw [known] at same
              obtain rfl := Option.some.inj same
              exact .touch stat .asked
            split
            · exact looked.trans asked
            · exact looked.trans asked
          · exact looked

theorem isDue_becomes (stat : ReaderStat) :
    Becomes env.cfg stat (isDue env stat).2 := by
  unfold isDue
  split
  · exact .refl stat
  · exact .touch stat .asked

theorem retryReader_touched (v : Reopening) (rdr : ReaderId) :
    Touched env.cfg v.s (retryReader env er prid v rdr).s := by
  have looked := @Touched.getStat env.cfg env.cfg v.s rdr er.caid prid er.srvid
    (int16 er.l)
  unfold retryReader
  generalize v.s.getStat env.cfg rdr er.caid prid er.srvid (int16 er.l) = found
    at looked ⊢
  obtain ⟨s, place⟩ := found
  dsimp only at looked ⊢
  cases place with
  | none => exact looked
  | some place =>
      rw [Option.bind_some]
      cases known : s.stat rdr place with
      | none => exact looked
      | some stat =>
          have becomes := isDue_becomes env stat
          have changed {after : ReaderStat}
              (later : Becomes env.cfg (isDue env stat).2 after) :
              Touched env.cfg s (s.modifyStat rdr place fun _ => after) := by
            apply Touched.modifyStat
            intro old same
            rw [known] at same
            obtain rfl := Option.some.inj same
            exact becomes.trans later
          dsimp only
          split
          · split
            · exact looked.trans (changed (.touch _ (.retried env.time)))
            · exact looked.trans (changed (.refl _))
          · exact looked

theorem retry_touched (rdrs : List ReaderId) (v : Reopening) :
    Touched env.cfg v.s (retry env er prid rdrs v).s := by
  induction rdrs generalizing v with
  | nil => exact Touched.refl v.s
  | cons rdr rdrs induction =>
      rw [retry]
      split
      · exact Touched.refl v.s
      · exact (retryReader_touched env er prid v rdr).trans (induction _)

theorem reopenReaders_touched (matching : LList) (learned : Learning)
    (chosen : Choosing) :
    Touched env.cfg chosen.s
      (reopenReaders env er prid matching learned chosen).s := by
  have reopened (rdrs : List ReaderId) (v : Reopening) :
      Touched env.cfg v.s (rdrs.foldl (reopenReader env er prid) v).s := by
    induction rdrs generalizing v with
    | nil => exact Touched.refl v.s
    | cons rdr rdrs induction =>
        exact (reopenReader_touched env er prid v rdr).trans (induction _)
  dsimp only [reopenReaders]
  split
  · generalize first : (if chosen.n = 0 then _ else _ : Reopening) = v
    have open_ : Touched env.cfg chosen.s v.s := by
      rw [← first]
      split
      · exact reopened _ _
      · exact Touched.refl _
    split
    · exact open_.trans (retry_touched env er prid _ v)
    · exact open_
  · exact Touched.refl _

end Phases

/-- Each record behind `get_best_reader` comes from one before it. -/
theorem getBestReader_touched (env : LbEnv) (s : LbState) (r : LbRequest) :
    Touched env.cfg s (getBestReader env s r).1 := by
  unfold getBestReader
  split
  · exact Touched.refl s
  · split
    · exact Touched.refl s
    · dsimp only
      have tunnel := autoBetatunnel_touched env r.er
        (getPrid env.cfg r.er.caid r.er.prid) s (objects r.matchingRdr)
      generalize autoBetatunnel env s r.er _ _ = both at tunnel ⊢
      obtain ⟨t, er⟩ := both
      dsimp only at tunnel ⊢
      have chosen := chooseReaders_touched env er
        (getPrid env.cfg r.er.caid r.er.prid) t r.matchingRdr
      generalize chooseReaders env t er _ r.matchingRdr = both at chosen ⊢
      obtain ⟨learned, chosen'⟩ := both
      have all := (tunnel.trans chosen).trans
        (reopenReaders_touched env er (getPrid env.cfg r.er.caid r.er.prid)
          r.matchingRdr learned chosen')
      split
      · exact all
      · exact all

end Oscam.Stat
