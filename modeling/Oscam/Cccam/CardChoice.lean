import Oscam.Cccam.SendEcm

/-!
# The card a request is sent to

A request should go to the card that `cc_send_ecm` chooses for it: its origin
card, or a card of its caid that does not block its service.  The variable
`card` is not reset from one request to the next, so that in extended mode a
request can go to the card of the request before it.
-/

namespace Oscam.Cccam

/-- The card for a task when nothing is left of earlier tasks. -/
def chosen (env : SendEnv) (cards : CardList) (task : Task) : Option Card :=
  (select env cards { card := none, h := -1 } task).card

namespace Sent

def ToOrigin (env : SendEnv) (s : Sent) : Prop :=
  env.forwardOriginCard ∧ s.task.originReader = some env.rdr ∧
    s.task.originCard = some s.card.addr

def Fits (s : Sent) : Prop :=
  s.card.caid = s.task.caid ∧ ¬ s.card.isSidBlocked s.task.srvidOf

/-- The message goes to the origin card of its request or to a card for it,
and no other than the one chosen for this request. -/
def Right (env : SendEnv) (s : Sent) : Prop :=
  (s.ToOrigin env ∨ s.Fits) ∧ chosen env s.cards s.task = some s.card

instance (env : SendEnv) (s : Sent) : Decidable (s.Right env) := by
  unfold Right ToOrigin Fits
  infer_instance

end Sent

/-! ## The search -/

/-- A card that may be chosen for a task. -/
def Candidate (cards : List Card) (task : Task) (card : Card) : Prop :=
  card ∈ cards ∧ card.caid = task.caid ∧ ¬ card.isSidBlocked task.srvidOf

/-- What the search keeps: candidates only, and a hop only with a card. -/
structure Search.Kept (cards : List Card) (task : Task) (s : Search) :
    Prop where
  card : ∀ card ∈ s.card, Candidate cards task card
  xcard : ∀ card ∈ s.xcard, Candidate cards task card
  hop : s.card = none → s.h = -1

namespace Search

variable {cards : List Card} {task : Task} {s : Search} {ncard : Card}

theorem Kept.take (kept : s.Kept cards task)
    (candidate : Candidate cards task ncard) :
    (s.take ncard).Kept cards task := by
  unfold Search.take
  split
  · constructor
    · intro card same
      cases same
      exact candidate
    · exact kept.xcard
    · intro missing
      cases missing
  · exact kept

theorem Kept.remember (kept : s.Kept cards task)
    (candidate : Candidate cards task ncard) :
    (s.remember ncard).Kept cards task := by
  unfold Search.remember
  split
  · constructor
    · exact kept.card
    · intro card same
      cases same
      exact candidate
    · exact kept.hop
  · exact kept

theorem Kept.takeForProviders (providers : List Provider)
    (kept : s.Kept cards task) (candidate : Candidate cards task ncard) :
    (providers.foldl
      (fun s provider =>
        if provider.prov = task.prid then s.take ncard else s) s).Kept
      cards task := by
  induction providers generalizing s with
  | nil => exact kept
  | cons provider providers induction =>
      apply induction
      by_cases same : provider.prov = task.prid
      · simpa [same] using kept.take candidate
      · simpa [same] using kept

theorem Kept.look (kept : s.Kept cards task) (member : ncard ∈ cards) :
    (s.look task ncard).Kept cards task := by
  unfold Search.look
  split
  · rename_i fits
    have candidate : Candidate cards task ncard := ⟨member, fits⟩
    have remembered := kept.remember candidate
    split
    · exact remembered.take candidate
    · exact remembered.takeForProviders _ candidate
  · exact kept

theorem Kept.foldl (kept : s.Kept cards task) (visited : List Card)
    (within : ∀ card ∈ visited, card ∈ cards) :
    (visited.foldl (Search.look task) s).Kept cards task := by
  induction visited generalizing s with
  | nil => exact kept
  | cons card visited induction =>
      apply induction (kept.look (within card (by simp)))
      intro other member
      exact within other (by simp [member])

theorem kept_start : Kept cards task { card := none, h := -1, xcard := none } :=
  { card := by simp, xcard := by simp, hop := fun _ => rfl }

end Search

variable {env : SendEnv} {cards : CardList} {task : Task} {card : Card}

theorem originCard_eq_some (found : originCard env cards task = some card) :
    env.forwardOriginCard ∧ task.originReader = some env.rdr ∧
      task.originCard = some card.addr := by
  unfold originCard at found
  split at found
  · rename_i forward
    obtain ⟨addr, here, listed⟩ := Option.bind_eq_some_iff.mp found
    obtain ⟨_, same⟩ := Chain.get?_eq_some_iff.mp listed
    rw [here, same]
    exact ⟨forward.1, forward.2, rfl⟩
  · cases found

theorem select_card (choice : Choice) :
    select env cards choice task =
      match (originCard env cards task).or choice.card with
      | some card => { card := some card, h := choice.h }
      | none =>
          let s := cards.cells.foldl (Search.look task)
            { card := none, h := choice.h, xcard := none }
          { card := s.card.or s.xcard, h := s.h } := by
  unfold select
  cases (originCard env cards task).or choice.card with
  | none => simp
  | some card => simp

theorem search_kept (cards : CardList) (task : Task) :
    (cards.cells.foldl (Search.look task)
      { card := none, h := -1, xcard := none }).Kept cards.cells task :=
  Search.kept_start.foldl cards.cells fun _ member => member

/-- What is chosen for a task is right for it. -/
theorem chosen_right (found : chosen env cards task = some card) :
    (env.forwardOriginCard ∧ task.originReader = some env.rdr ∧
        task.originCard = some card.addr) ∨
      Candidate cards.cells task card := by
  rw [chosen, select_card] at found
  cases origin : originCard env cards task with
  | some other =>
      rw [origin] at found
      cases found
      exact Or.inl (originCard_eq_some origin)
  | none =>
      rw [origin] at found
      right
      have kept := search_kept cards task
      rcases Option.or_eq_some_iff.mp found with found | ⟨_, found⟩
      · exact kept.card card found
      · exact kept.xcard card found

/-- A search that finds nothing leaves the variables as they were. -/
theorem select_of_chosen_none (missing : chosen env cards task = none) :
    select env cards { card := none, h := -1 } task =
      { card := none, h := -1 } := by
  unfold chosen at missing
  rw [select_card] at missing ⊢
  cases origin : originCard env cards task with
  | some other => simp [origin] at missing
  | none =>
      simp only [origin, Option.or_none] at missing ⊢
      have kept := search_kept cards task
      have none_left := Option.or_eq_none_iff.mp missing
      rw [missing, kept.hop none_left.1]

/-- With a card left from the request before, only an origin card is looked
for. -/
theorem select_carried (h : Int) :
    select env cards { card := some card, h := h } task =
      { card := some ((originCard env cards task).getD card), h := h } := by
  rw [select_card]
  cases originCard env cards task with
  | none => rfl
  | some other => rfl

/-! ## The requests in the order of the loop -/

/-- The pending requests in the order in which the loop takes them. -/
def taken (env : SendEnv) (myid : List UInt8) :
    Nat → Nat → List Task → List Task
  | 0, _, _ => []
  | fuel + 1, n, tasks =>
      let tasks := tasks.map (refresh env myid (env.time n))
      match nextOf tasks with
      | none => []
      | some (i, task) =>
          let task := task.withRc 101
          task :: taken env myid fuel (n + 1) (tasks.set i task)

/-- The messages for requests taken one after another. -/
def run (env : SendEnv) (receiving : Bool) :
    CardList → Choice → List Task → List Sent
  | _, _, [] => []
  | cards, choice, task :: tasks =>
      let choice := select env cards choice task
      match choice.card with
      | some card =>
          { task := task, card := card, cards := cards
            message := ecmMessage card task } ::
              run env receiving cards choice tasks
      | none => run env receiving (missed env receiving cards task) choice tasks

/-- Two tables in which the same tasks wait. -/
def SameWaiting (left right : List Task) : Prop :=
  List.Forall₂ (fun l r => l = r ∨ ¬ l.Waits ∧ ¬ r.Waits) left right

namespace SameWaiting

variable {left right : List Task}

theorem refl (tasks : List Task) : SameWaiting tasks tasks :=
  List.forall₂_same.mpr fun _ _ => Or.inl rfl

theorem refresh (same : SameWaiting left right) (env : SendEnv)
    (myid : List UInt8) (now : Int) :
    SameWaiting (left.map (Cccam.refresh env myid now))
      (right.map (Cccam.refresh env myid now)) := by
  induction same with
  | nil => exact .nil
  | @cons l r _ _ agree _ induction =>
      refine .cons ?_ induction
      rcases agree with rfl | ⟨leftIdle, rightIdle⟩
      · exact Or.inl rfl
      · right
        constructor
        · intro waits
          exact leftIdle (refresh_waits waits ▸ waits)
        · intro waits
          exact rightIdle (refresh_waits waits ▸ waits)

theorem set (same : SameWaiting left right) (i : Nat) {l r : Task}
    (leftIdle : ¬ l.Waits) (rightIdle : ¬ r.Waits) :
    SameWaiting (left.set i l) (right.set i r) := by
  induction same generalizing i with
  | nil => exact .nil
  | cons agree rest induction =>
      cases i with
      | zero => exact .cons (Or.inr ⟨leftIdle, rightIdle⟩) rest
      | succ i => exact .cons agree (induction i)

theorem nextOf_eq (same : SameWaiting left right) :
    nextOf left = nextOf right := by
  have scanned : ∀ (k : Nat) (best : Option (Nat × Task)),
      (left.zipIdx k).foldl next best = (right.zipIdx k).foldl next best := by
    induction same with
    | nil =>
        intro k best
        rfl
    | @cons l r _ _ agree _ induction =>
        intro k best
        have step : next best (l, k) = next best (r, k) := by
          rcases agree with rfl | ⟨leftIdle, rightIdle⟩
          · rfl
          · simp [next, leftIdle, rightIdle]
        simp only [List.zipIdx_cons, List.foldl_cons, step, induction]
  exact scanned 0 none

end SameWaiting

/-! ## The messages of a call -/

/-- The messages of the loop are those of the requests in the order in which
they are taken, as many as the call can send. -/
theorem sendLoop_sent (fuel n : Nat) (st : Call) (choice : Choice)
    {tasks : List Task} (same : SameWaiting st.conn.ecmtask tasks)
    (fresh : ¬ st.conn.extendedMode → st.sent = []) :
    (sendLoop env fuel n st choice).sent =
      st.sent ++
        (run env st.conn.Receiving st.conn.cards choice
          (taken env st.conn.peerNodeId fuel n tasks)).take
            (st.conn.limit env - st.sent.length) := by
  induction fuel generalizing n st choice tasks with
  | zero => simp [sendLoop, taken, run]
  | succ fuel induction =>
      have looked := same.refresh env st.conn.peerNodeId (env.time n)
      simp only [sendLoop, taken, turn_eq, looked.nextOf_eq]
      cases nextOf (tasks.map
        (Cccam.refresh env st.conn.peerNodeId (env.time n))) with
      | none => simp [run, Call.getNxtEcm, Call.begin]
      | some entry =>
          obtain ⟨i, task⟩ := entry
          have link := Call.took_link env task n i st
          have idle : ¬ (task.withRc 101).Waits := by simp [Task.Waits]
          have waiting : SameWaiting (st.took env n i task).conn.ecmtask _ :=
            looked.set i idle idle
          have kept : (st.took env n i task).sent = st.sent := rfl
          simp only [run]
          generalize st.took env n i task = after at link waiting kept ⊢
          rw [← kept] at fresh ⊢
          cases found : (select env st.conn.cards choice
              (task.withRc 101)).card with
          | some card =>
              by_cases room : after.sent.length < env.capacity
              · obtain ⟨sendLink, sendTasks⟩ :=
                  Call.send_link card (task.withRc 101) room
                have nextLink := sendLink.trans link
                by_cases extended : st.conn.extendedMode
                · simp only [room, link.extendedMode, extended, and_self,
                    if_true]
                  rw [induction (n + 1) _ _ (sendTasks ▸ waiting)
                    (fun off => absurd (nextLink.extendedMode ▸ extended) off),
                    Call.send_sent room, nextLink.receiving, nextLink.cards,
                    nextLink.peerNodeId, nextLink.limit, link.cards]
                  have left_over : st.conn.limit env - after.sent.length =
                      st.conn.limit env - (after.sent.length + 1) + 1 := by
                    simp only [Conn.limit, extended, if_true]
                    omega
                  simp [left_over, Call.sentTo]
                · have empty := fresh extended
                  simp only [link.extendedMode, extended, Bool.false_eq_true,
                    and_false, if_false]
                  rw [Call.send_sent room, link.cards]
                  have one : st.conn.limit env - after.sent.length = 1 := by
                    simp only [empty, List.length_nil] at room ⊢
                    simp only [Conn.limit, extended]
                    simp
                    omega
                  simp [one, Call.sentTo]
              · simp only [room, false_and, if_false]
                rw [Call.send_lost room]
                have none_left : st.conn.limit env - after.sent.length = 0 := by
                  unfold Conn.limit
                  split <;> omega
                simp [none_left]
          | none =>
              obtain ⟨missLink, missSent⟩ :=
                Call.miss_link env (task.withRc 101) i after
              obtain ⟨other, otherIdle, missTasks⟩ :=
                Call.miss_ecmtask env (task.withRc 101) i after
              have again : SameWaiting
                  (after.miss env i (task.withRc 101)).conn.ecmtask _ :=
                missTasks ▸ waiting.set i otherIdle idle
              have mode : (after.miss env i (task.withRc 101)).conn.limit env =
                  st.conn.limit env :=
                missLink.limit.trans link.limit
              have receives := missLink.receiving.trans link.receiving
              have extended := missLink.extendedMode.trans link.extendedMode
              have peer := missLink.peerNodeId.trans link.peerNodeId
              simp only [List.set_set] at again
              rw [induction (n + 1) _ _ again
                (fun off => missSent.trans (fresh (extended ▸ off))),
                missSent, mode, receives, missLink.cards, peer, link.receiving,
                link.cards]

/-! ## When every request goes to its own card -/

/-- The requests from the first one there is a card for, with the cards as
the missed requests before it leave them. -/
def untilServed (env : SendEnv) (receiving : Bool) :
    CardList → List Task → CardList × List Task
  | cards, [] => (cards, [])
  | cards, task :: tasks =>
      if chosen env cards task = none then
        untilServed env receiving (missed env receiving cards task) tasks
      else (cards, task :: tasks)

/-- The card of the request before is also the one for this request, unless
its own origin card is used. -/
def Follows (env : SendEnv) (cards : CardList) (before task : Task) : Prop :=
  originCard env cards task ≠ none ∨
    chosen env cards task = chosen env cards before

instance (env : SendEnv) (cards : CardList) (before task : Task) :
    Decidable (Follows env cards before task) :=
  inferInstanceAs (Decidable (_ ∨ _))

theorem run_untilServed (receiving : Bool) (tasks : List Task) :
    run env receiving cards { card := none, h := -1 } tasks =
      run env receiving (untilServed env receiving cards tasks).1
        { card := none, h := -1 } (untilServed env receiving cards tasks).2 := by
  induction tasks generalizing cards with
  | nil => rfl
  | cons task tasks induction =>
      by_cases missing : chosen env cards task = none
      · rw [untilServed, if_pos missing, ← induction, run,
          select_of_chosen_none missing]
      · rw [untilServed, if_neg missing]

theorem untilServed_head (env : SendEnv) (cards : CardList)
    (receiving : Bool) (tasks : List Task) :
    ∀ task ∈ (untilServed env receiving cards tasks).2.head?,
      chosen env (untilServed env receiving cards tasks).1 task ≠ none := by
  induction tasks generalizing cards with
  | nil => simp [untilServed]
  | cons task tasks induction =>
      by_cases missing : chosen env cards task = none
      · rw [untilServed, if_pos missing]
        exact induction _
      · rw [untilServed, if_neg missing]
        simpa using missing

/-- A message that goes to the chosen card is right. -/
theorem sentTo_right_iff (env : SendEnv) (cards : CardList) (card : Card)
    (task : Task) :
    (Call.sentTo cards card task).Right env ↔
      chosen env cards task = some card := by
  constructor
  · exact And.right
  · intro found
    refine ⟨?_, found⟩
    rcases chosen_right found with origin | candidate
    · exact Or.inl origin
    · exact Or.inr candidate.2

/-- After a request that went to its card: the next ones go to theirs exactly
if each follows the one before it. -/
theorem run_carried_right_iff (receiving : Bool) (tasks : List Task) (h : Int)
    (k : Nat) {before : Task} (own : chosen env cards before = some card) :
    (∀ s ∈ (run env receiving cards { card := some card, h := h } tasks).take k,
        s.Right env) ↔
      ((before :: tasks).take (k + 1)).IsChain (Follows env cards) := by
  induction tasks generalizing before card k with
  | nil => simp [run]
  | cons task tasks induction =>
      cases k with
      | zero => simp
      | succ k =>
          have follows : chosen env cards task =
              some ((originCard env cards task).getD card) ↔
                Follows env cards before task := by
            unfold Follows
            rw [own]
            cases origin : originCard env cards task with
            | none => simp
            | some other => simp [chosen, select_card, origin]
          have first := sentTo_right_iff env cards
            ((originCard env cards task).getD card) task
          rw [run, select_carried]
          simp only [List.take_succ_cons, List.forall_mem_cons,
            List.isChain_cons_cons]
          constructor
          · rintro ⟨here, later⟩
            have found := first.mp here
            exact ⟨follows.mp found, (induction k found).mp later⟩
          · rintro ⟨here, later⟩
            have found := follows.mpr here
            exact ⟨first.mpr found, (induction k found).mpr later⟩

theorem run_right_iff (receiving : Bool) (tasks : List Task) (k : Nat) :
    (∀ s ∈ (run env receiving cards { card := none, h := -1 } tasks).take k,
        s.Right env) ↔
      ((untilServed env receiving cards tasks).2.take k).IsChain
        (Follows env (untilServed env receiving cards tasks).1) := by
  rw [run_untilServed]
  have head := untilServed_head env cards receiving tasks
  cases served : (untilServed env receiving cards tasks).2 with
  | nil => simp [run]
  | cons task rest =>
      rw [served] at head
      obtain ⟨card, own⟩ := Option.ne_none_iff_exists'.mp (head task rfl)
      cases k with
      | zero => simp
      | succ k =>
          have first := (sentTo_right_iff env _ card task).mpr own
          cases picked : select env (untilServed env receiving cards tasks).1
              { card := none, h := -1 } task with
          | mk found h =>
              have same : found = some card := by
                simpa [chosen, picked] using own
              rw [← run_carried_right_iff receiving rest h k own, run, picked,
                same]
              simp only [List.take_succ_cons, List.forall_mem_cons]
              constructor
              · exact And.right
              · intro later
                exact ⟨first, later⟩

/-- The connection as the loop finds it. -/
def Conn.starting (conn : Conn) : Conn :=
  { conn with
    justLoggedIn := false
    ecmBusy := ¬ conn.extendedMode ∨ conn.ecmBusy }

/-- When a connection that can take requests is in extended mode: of the
requests that the loop takes and the connection carries, from the first one
there is a card for on, each follows the one before it. -/
def Agree (env : SendEnv) (conn : Conn) : Prop :=
  conn.Ready → conn.extendedMode →
    let requests := taken env conn.peerNodeId (conn.ecmtask.length + 1) 0
      conn.ecmtask
    let served := untilServed env conn.starting.Receiving conn.cards requests
    (served.2.take env.capacity).IsChain (Follows env served.1)

theorem refuse_sent (er : Option EcmRequest) (conn : Conn) :
    (refuse env er conn).sent = [] := by
  unfold refuse
  split
  · rfl
  · split
    · rfl
    · split <;> rfl

theorem cliConnect_not_ready (login : Login) {conn : Conn}
    (off : conn.tcpConnected = 0) : ¬ (conn.cliConnect login).Ready := by
  intro ready
  have connected := ready.2.1
  cases login <;> simp [Conn.cliConnect, Conn.withoutCards, off] at connected

/-- The messages of a call, on a connection that can take requests. -/
theorem sendEcm_sent (er : Option EcmRequest) {conn : Conn}
    (ready : conn.Ready) :
    (sendEcm env er conn).sent =
      (run env conn.starting.Receiving conn.cards { card := none, h := -1 }
        (taken env conn.peerNodeId (conn.ecmtask.length + 1) 0
          conn.ecmtask)).take (conn.limit env) := by
  have connected : conn.tcpConnected ≠ 0 := by
    simp [ready.2.1]
  simp only [sendEcm, connected, if_false, ready, if_true]
  rw [sendLoop_sent _ _ _ _ (SameWaiting.refl conn.ecmtask) fun _ => rfl]
  rfl

theorem sendEcm_sent_of_not_ready (er : Option EcmRequest) {conn : Conn}
    (waits : ¬ conn.Ready) : (sendEcm env er conn).sent = [] := by
  by_cases off : conn.tcpConnected = 0
  · have still := cliConnect_not_ready env.login off
    simp only [sendEcm, off, if_true, still, if_false, refuse_sent]
  · simp only [sendEcm, off, waits, if_false, refuse_sent]

theorem isChain_take_one {α : Type} (R : α → α → Prop) (limit : Nat)
    (requests : List α) : (requests.take (min 1 limit)).IsChain R := by
  cases limit with
  | zero => simp
  | succ limit =>
      rw [Nat.min_eq_left (Nat.le_add_left 1 limit)]
      cases requests <;> simp

/-- Every message of a call goes to the card of its request exactly if the
requests agree. -/
theorem sent_right_iff (env : SendEnv) (er : Option EcmRequest) (conn : Conn) :
    (∀ s ∈ (sendEcm env er conn).sent, s.Right env) ↔ Agree env conn := by
  by_cases ready : conn.Ready
  · rw [sendEcm_sent er ready, run_right_iff]
    by_cases extended : conn.extendedMode
    · simp only [Agree, ready, extended, Conn.limit, if_true, forall_const]
    · constructor
      · intro _ _ on
        exact absurd on extended
      · intro _
        simp only [Conn.limit, extended, Bool.false_eq_true, if_false]
        apply isChain_take_one
  · rw [sendEcm_sent_of_not_ready er ready]
    constructor
    · intro _ now
      exact absurd now ready
    · intro _ s member
      cases member

/-! ## A request sent to the card of another -/

def plainCard (addr caid : Nat) : Card :=
  { addr := addr, id := addr, remoteId := addr, caid := caid, hop := 1
    reshare := 1, hexserial := [], providers := [], badsids := []
    goodsids := [], remoteNodes := [], originReader := none
    cardType := .remotecard, sidtab := none, grp := 1, rdrReshare := 1
    sidtabno := 0, timeout := 0, isExt := false }

def plainTask (idx caid : Nat) (time : Int) : Task :=
  { EcmRequest.zero with
    caid := caid, ocaid := caid, rc := eUnhandled
    tps := { time := time, millitm := 0 }
    idx := idx, originReader := none, originCard := none }

/-- A server with cards of two systems and one pending request for each. -/
def twoSystems : Conn :=
  { pfd := 3, tcpConnected := 2
    cards :=
      { cells := [plainCard 1 0x100, plainCard 2 0x500]
        distinct := by decide }
    extendedMode := true, ecmBusy := false
    ecmTime := { time := 0, millitm := 0 }, lastMsg := 1
    justLoggedIn := false, serverEcmIdx := 0, gFlag := 0
    extendedEcmIdx := [], peerNodeId := [], available := true, fdError := 0
    currenthops := 0, pending := 0
    ecmtask := [plainTask 0 0x500 100, plainTask 1 0x100 101] }

def plainEnv : SendEnv :=
  { rdr := 0
    reader :=
      { grp := 1, dropbadcws := false, isNetwork := true, isCascading := true
        fallback := false, ecmtask := [], pipe := [] }
    keepalive := false, ctimeout := 5000, forwardOriginCard := false
    peerNodeId := fun _ => none, curTime := { time := 102, millitm := 0 }
    time := fun _ => 102, login := .noSeed, capacity := 10 }

/-- In extended mode the second request goes to the card of the first one. -/
theorem sent_to_foreign_card :
    ¬ ∀ s ∈ (sendEcm plainEnv none twoSystems).sent, s.Right plainEnv := by
  decide

end Oscam.Cccam
