import Mathlib.Data.List.Basic
import Skynet.Mahjong.Round

/-!
# Skynet.Mahjong.RoundStep

What a message or a timer can do in a round, said once. `Inv` is what holds between two handlers as long as none
has raised an error: how many tiles each seat has, which operations are offered, and which timers may be pending.

* `Next c s l o` : the outcomes of a label, one constructor for each thing that can happen.
* `next_of_handled` : a state with `Inv` has no other outcome.
* `inv_of_next` : `Inv` holds again when a handler has returned and the round is not over.
-/

namespace Skynet
namespace Mahjong

/-! ### Between two handlers -/

/-- The tiles of a seat: those in its hand, and three for each meld. -/
def State.size (s : State) (i : Seat) : Nat := (s.hand i).length + 3 * (s.handle i).length

def Even (s : State) : Prop := ∀ i ∈ seats, s.size i = 13

/-- The tile that was discarded last, at the current seat. -/
def State.lastOut (s : State) : Nat := ((s.out s.curSeat).getLast?.map Card.iCardValue).getD 0

/-- The operations that the current phase offers to a seat. -/
def State.phaseOps (s : State) (i : Seat) : List Op :=
  match s.status with
  | .opOutCard => claimOps s s.curSeat s.lastOut i
  | .opDrawCard =>
    if i = s.curSeat then onGetUserOpValueWhenDrawCard (s.hand i) (s.handle i) ((s.hand i).getLast?.getD 0) else []
  | .opBuGangCard =>
    match s.gangs.getLast? with
    | some v => robOps s s.curSeat ⟨v.iOpValue, v.iCardValue⟩ i
    | none => []
  | _ => []

/-- Every seat has the operations of the phase, or has declined them; nobody has selected one. -/
structure Offered (ops : Seat → List Op) (o : Seat → Offer) : Prop where
  table : ∀ i, (o i).iOpTable = ops i
  value : ∀ i, (o i).iOpValue = opValue (ops i) ∨ (o i).iOpValue = 0
  selected : ∀ i, (o i).iSelectOp = none

def State.opStatus (s : State) : Prop :=
  s.status = .opOutCard ∨ s.status = .opDrawCard ∨ s.status = .opBuGangCard

def State.turnStatus (s : State) : Prop := s.status = .outCard ∨ s.status = .opDrawCard

/-- From the first draw to the end of the round. -/
structure Playing (s : State) : Prop where
  index : s.progressIndex = 4
  status : s.status = .outCard ∨ s.opStatus
  cur : s.curSeat ∈ seats
  turn : s.turnStatus → ∀ i ∈ seats, s.size i = if i = s.curSeat then 14 else 13
  even : ¬ s.turnStatus → Even s
  offers : ∃ o, s.offers = some o ∧ Offered s.phaseOps o ∧ (s.opStatus → ∃ i ∈ seats, 0 < (o i).iOpValue)
  gangs : s.status = .opBuGangCard → ∃ v, s.gangs.getLast? = some v ∧ v.iOpValue = BU_GANG
  timers : s.timers .makeBanker = none ∧ s.timers .dealCards = none ∧ s.timers .drawCard = none
  outCard : s.timers .outCard ≠ none → s.status = .outCard

inductive Inv (s : State) : Prop
  | start : s.status = .none → s.progressIndex = 2 → 4 * iDealCardCount ≤ s.pool.length →
      (∀ i, s.hand i = [] ∧ s.handle i = []) → (∀ key, key ≠ .makeBanker → s.timers key = none) → Inv s
  | dealt : s.status = .none → s.progressIndex = 3 → Even s →
      (∀ key, key ≠ .dealCards → s.timers key = none) → Inv s
  | first : s.status = .drawCard → s.progressIndex = 4 → s.curSeat = 1 → Even s →
      (∀ key, key ≠ .drawCard → s.timers key = none) → Inv s
  | playing : Playing s → Inv s

/-! ### What can happen -/

/-- The pending timers without those of the offered operations. -/
def opStopped (timers : Timer → Option Nat) : Timer → Option Nat
  | .opOutCard => none
  | .opDarwCard => none
  | .opBuGangCard => none
  | key => timers key

/-- The operation that the handler of a label carries out, with its seat. -/
def taking (c : Config) (s : State) : Label → Option (Seat × Op)
  | .takeOperation userId iOpValue iCardValue =>
    if s.status = .opOutCard ∨ s.status = .opDrawCard ∨ s.status = .opBuGangCard then
      match c.playerOf userId, s.offers with
      | some seat, some offers =>
        let offers := answered offers seat iOpValue iCardValue
        if seats.any fun i => (offers i).pending then none else firstSelected offers seats
      | _, _ => none
    else none
  | .timer key _ =>
    if (key = .opOutCard ∨ key = .opDarwCard ∨ key = .opBuGangCard) ∧ s.timers key ≠ none then
      s.offers.bind fun offers => firstSelected offers seats
    else none
  | _ => none

/-- The tile that a label discards for the current player. -/
def discarding (c : Config) (s : State) : Label → Option Nat
  | .outCard userId v =>
    if (s.status = .outCard ∨ s.status = .opDrawCard) ∧ c.playerOf userId = some s.curSeat then
      (s.hand s.curSeat).find? fun (w : Nat) => (w : Int) = v
    else none
  | .timer .outCard _ => if s.timers .outCard ≠ none then (s.hand s.curSeat).getLast? else none
  | _ => none

/-- The offers of the phase are over with the label, and nobody has selected an operation. -/
def Passes (c : Config) (s : State) : Label → Prop
  | .takeOperation userId iOpValue iCardValue => ∃ seat o, c.playerOf userId = some seat ∧ s.offers = some o ∧
      (∀ i ∈ seats, (answered o seat iOpValue iCardValue i).pending = false) ∧
      firstSelected (answered o seat iOpValue iCardValue) seats = none
  | .timer key _ => (key = .opOutCard ∨ key = .opDarwCard ∨ key = .opBuGangCard) ∧ s.timers key ≠ none ∧
      ∃ o, s.offers = some o ∧ firstSelected o seats = none
  | _ => False

/-- An operation that wins the round. -/
def isWin (op : Op) : Bool :=
  isHu op.iOpValue || isZiMo op.iOpValue || isQiangGangHu op.iOpValue || isGangShangKaiHua op.iOpValue ||
    isGangShangPao op.iOpValue

inductive Next (c : Config) (s : State) : Label → Outcome → Prop
  /-- A message that changes no tiles. -/
  | aside {l : Label} {tuoGuan : Seat → Bool} {sent : List (Seat × Packet)} :
      Next c s l (.returned { s with tuoGuan := tuoGuan, sent := sent })
  /-- An offer is declined, and others are still pending. -/
  | decline {l : Label} {o : Seat → Offer} {seat : Seat} : s.offers = some o → Playing s → s.opStatus →
      (∃ i ∈ seats, 0 < (Function.update o seat { o seat with iOpValue := 0 } i).iOpValue) →
      Next c s l (.returned { s with offers := some (Function.update o seat { o seat with iOpValue := 0 }) })
  | noReconnect {userId : Int} {e : Err} : c.isBattleRoom = true ∨ 128 ≤ s.pool.length →
      Next c s (.reconnect userId) (.raised s e)
  | deal {dice : List Int} : s.status = .none → s.progressIndex = 2 →
      Next c s (.timer .makeBanker dice) (.returned (procNextProgress c (s.stopTimer .makeBanker) dice))
  | begin {dice : List Int} : s.status = .none → s.progressIndex = 3 →
      Next c s (.timer .dealCards dice) (.returned (procNextProgress c (s.stopTimer .dealCards) dice))
  | first {dice : List Int} : s.status = .drawCard → s.curSeat = 1 →
      Next c s (.timer .drawCard dice) (drawCard c (s.stopTimer .drawCard) 1)
  /-- A discard that is offered to another player, and one that is not. -/
  | claim {l : Label} {card : Nat} {tuoGuan : Seat → Bool} {sent : List (Seat × Packet)} {t : State} :
      Playing s → s.turnStatus → discarding c s l = some card → card ∈ s.hand s.curSeat →
      t = discarded c { s with tuoGuan := tuoGuan, sent := sent } s.curSeat card → t.hasOp = true →
      Next c s l (.returned ({ t with status := .opOutCard }.startTimer .opOutCard (c.iOperationTime * 1000)))
  | discard {l : Label} {card : Nat} {tuoGuan : Seat → Bool} {sent : List (Seat × Packet)} {t : State} :
      Playing s → s.turnStatus → discarding c s l = some card → card ∈ s.hand s.curSeat →
      t = discarded c { s with tuoGuan := tuoGuan, sent := sent } s.curSeat card → t.hasOp = false →
      Next c s l (drawCard c { t with status := .drawCard, curSeat := 0 } (nextSeat s.curSeat))
  /-- Every offer of the phase was declined, or its time is over. -/
  | passOut {l : Label} {offers : Option (Seat → Offer)} : Playing s → s.status = .opOutCard → Passes c s l →
      Next c s l (drawCard c { s with status := .drawCard, offers := offers, timers := opStopped s.timers }
        (nextSeat s.curSeat))
  | passDraw {l : Label} {t : State} : Playing s → s.status = .opDrawCard → Passes c s l →
      t = { s.clearUserOp with status := .outCard, timers := opStopped s.timers } →
      Next c s l (.returned (t.startTimer .outCard (c.outCardTime s s.curSeat)))
  | passBuGang {l : Label} {offers : Option (Seat → Offer)} {gangs : List GangInfo} : Playing s →
      s.status = .opBuGangCard → Passes c s l → setLastDone true s.gangs = some gangs →
      Next c s l (drawCard c { s with
        status := .drawCard, offers := offers, timers := opStopped s.timers, gangs := gangs } s.curSeat)
  /-- The timer of an offer that is over. -/
  | stale {l : Label} : Playing s → s.status = .outCard →
      Next c s l (.returned { s.clearUserOp with timers := opStopped s.timers })
  | take {l : Label} {seat : Seat} {op : Op} {offers : Option (Seat → Offer)} : Playing s → seat ∈ seats →
      op ∈ s.phaseOps seat → isWin op = false → taking c s l = some (seat, op) →
      Next c s l (onDealClientUserTakeOp c { s with offers := offers, timers := opStopped s.timers } seat op)
  | win {l : Label} {seat : Seat} {op : Op} {offers : Option (Seat → Offer)} : Playing s → seat ∈ seats →
      op ∈ s.phaseOps seat → isWin op = true → taking c s l = some (seat, op) →
      Next c s l (onGameStopRound c
        (onDealClientUserHu c { s with offers := offers, timers := opStopped s.timers } seat op) 1)

variable {c : Config} {s t : State} {seat : Seat} {op : Op}

/-! ### Offers -/

/-- The codes that are offered. -/
def Coded (op : Op) : Prop :=
  op.iOpValue = PENG ∨ op.iOpValue = GANG ∨ op.iOpValue = AN_GANG ∨ op.iOpValue = BU_GANG ∨ op.iOpValue = ZIMO ∨
    op.iOpValue = QIANGGANGHU

theorem coded_claimOps {seat i : Seat} {card : Nat} (h : op ∈ claimOps s seat card i) : Coded op := by
  simp only [claimOps] at h
  split at h
  · cases h
  · obtain ⟨rfl, -⟩ | ⟨rfl, -⟩ := mem_onGetUserOpValueWhenOutCard h
    · exact .inr (.inl rfl)
    · exact .inl rfl

theorem coded_draw {hand : List Nat} {handle : List Op} {card : Nat}
    (h : op ∈ onGetUserOpValueWhenDrawCard hand handle card) : Coded op := by
  cases mem_onGetUserOpValueWhenDrawCard h with
  | anGang => exact .inr (.inr (.inl rfl))
  | buGang => exact .inr (.inr (.inr (.inl rfl)))
  | ziMo => exact .inr (.inr (.inr (.inr (.inl rfl))))

theorem coded_robOps {m : Op} {i : Seat} (h : op ∈ robOps s seat m i) : Coded op := by
  simp only [robOps] at h
  split at h
  · cases mem_onGetUserOpValueWhenBuGang h
    exact .inr (.inr (.inr (.inr (.inr rfl))))
  · cases h

theorem coded_phaseOps {i : Seat} (h : op ∈ s.phaseOps i) : Coded op := by
  unfold State.phaseOps at h
  split at h
  · exact coded_claimOps h
  · split at h
    · exact coded_draw h
    · cases h
  · split at h
    · exact coded_robOps h
    · cases h
  · cases h

theorem Coded.ne_zero (h : Coded op) : op.iOpValue ≠ 0 := by
  intro hz
  rw [Coded, hz] at h
  simp [PENG, GANG, AN_GANG, BU_GANG, ZIMO, QIANGGANGHU] at h

theorem Coded.isHu (h : Coded op) : isHu op.iOpValue = false := by
  obtain h | h | h | h | h | h := h <;> rw [h] <;> rfl

theorem Coded.isGuo (h : Coded op) : isGuo op.iOpValue = false := by
  obtain h | h | h | h | h | h := h <;> rw [h] <;> rfl

theorem opValue_eq_zero {ops : List Op} (h : ∀ op ∈ ops, Coded op) (hz : opValue ops = 0) : ops = [] := by
  cases ops with
  | nil => rfl
  | cons op ops =>
    have hpos : 0 < opValue (op :: ops) :=
      opValue_pos ⟨op, List.mem_cons_self .., (h op (List.mem_cons_self ..)).ne_zero⟩
    omega

/-- A win on a discard is never offered. -/
theorem isHu_opValue {ops : List Op} (h : ∀ op ∈ ops, Coded op) : isHu (opValue ops) = false := by
  have hbit : ∀ v, isHu v = v.testBit 8 := isOp_two_pow 8
  rw [hbit, testBit_opValue, List.any_eq_false]
  intro op hop
  rw [← hbit, (h op hop).isHu]
  exact Bool.false_ne_true

/-- After an answer of one seat, the offers of the others are over. -/
theorem yield_value {o : Offer} (hhu : isHu o.iOpValue = false) (hsel : o.iSelectOp = none) :
    o.yield.iOpValue = 0 := by
  simp only [Offer.yield, hhu, hsel]
  split
  · rfl
  · rename_i hpos
    exact Nat.eq_zero_of_not_pos hpos

/-- The entry with its operations. -/
theorem Offered.of (ops : Seat → List Op) : Offered ops fun i => .of (ops i) :=
  ⟨fun _ => rfl, fun _ => .inl rfl, fun _ => rfl⟩

theorem Offered.decline {ops : Seat → List Op} {o : Seat → Offer} (h : Offered ops o) (seat : Seat) :
    Offered ops (Function.update o seat { o seat with iOpValue := 0 }) := by
  constructor
  · intro i
    rw [Function.update_apply]
    split
    · rename_i e
      rw [e]
      exact h.table seat
    · exact h.table i
  · intro i
    rw [Function.update_apply]
    split
    · exact .inr rfl
    · exact h.value i
  · intro i
    rw [Function.update_apply]
    split
    · exact h.selected seat
    · exact h.selected i

theorem Offered.not_isHu (h : Offered s.phaseOps o) (i : Seat) : isHu (o i).iOpValue = false := by
  obtain hv | hv := h.value i
  · rw [hv]
    exact isHu_opValue fun op hop => coded_phaseOps hop
  · rw [hv]
    rfl

theorem firstSelected_none {o : Seat → Offer} (h : ∀ i, (o i).selected = none) (is : List Seat) :
    firstSelected o is = none := by
  induction is with
  | nil => rfl
  | cons i is ih => simp only [firstSelected, h i, ih]

theorem firstSelected_single {o : Seat → Offer} (hsel : (o seat).selected = some op)
    (h : ∀ i, i ≠ seat → (o i).selected = none) {is : List Seat} (hm : seat ∈ is) :
    firstSelected o is = some (seat, op) := by
  induction is with
  | nil => cases hm
  | cons i is ih =>
    by_cases hi : i = seat
    · subst hi
      simp only [firstSelected, hsel]
    · have hm' : seat ∈ is := (List.mem_cons.mp hm).resolve_left fun e => hi e.symm
      simp only [firstSelected, h i hi, ih hm']

theorem Offered.selected_none {ops : Seat → List Op} {o : Seat → Offer} (h : Offered ops o) (i : Seat) :
    (o i).selected = none := by
  simp only [Offer.selected, h.selected i]
  split
  · rfl
  · rfl

theorem Offered.pending {ops : Seat → List Op} {o : Seat → Offer} (h : Offered ops o) :
    (seats.any fun i => (o i).pending) = true ↔ ∃ i ∈ seats, 0 < (o i).iOpValue := by
  simp [List.any_eq_true, Offer.pending, h.selected]

/-- What a message does to the offers of a phase: the sender declines, or selects one of its operations. -/
theorem Offered.answered (h : Offered s.phaseOps o) (seat : Seat) (iOpValue iCardValue : Int) :
    answered o seat iOpValue iCardValue = Function.update o seat { o seat with iOpValue := 0 } ∨
      ∃ op, op ∈ s.phaseOps seat ∧ 0 < (o seat).iOpValue ∧
        (op.iOpValue : Int) = iOpValue ∧ (op.iCardValue : Int) = iCardValue ∧
        (∀ i, (Mahjong.answered o seat iOpValue iCardValue i).pending = false) ∧
        ∀ is, seat ∈ is → firstSelected (Mahjong.answered o seat iOpValue iCardValue) is = some (seat, op) := by
  simp only [Mahjong.answered]
  cases hsel : (o seat).select iOpValue iCardValue with
  | none => exact .inl rfl
  | some op =>
    refine .inr ⟨op, ?_⟩
    simp only [Offer.select, h.table seat] at hsel
    split at hsel
    · rename_i hpos
      have hmem := List.mem_of_find?_eq_some hsel
      have heq := List.find?_some hsel
      simp only [decide_eq_true_eq] at heq
      have hguo : isGuo op.iOpValue = false := (coded_phaseOps hmem).isGuo
      have hyield : ∀ i, (o i).yield.iOpValue = 0 := fun i => yield_value (h.not_isHu i) (h.selected i)
      refine ⟨hmem, hpos.1, heq.1, heq.2, ?_, ?_⟩
      · intro i
        simp only [hguo, Bool.false_eq_true, if_false]
        split
        · simp [Offer.pending]
        · simp [Offer.pending, hyield i]
      · intro is hm
        simp only [hguo, Bool.false_eq_true, if_false]
        refine firstSelected_single ?_ ?_ hm
        · simp [Offer.selected, hpos.1]
        · intro i hi
          simp [Offer.selected, hi, hyield i]
    · cases hsel

/-! ### Handlers -/

theorem mem_seats_of_playerOf {userId : Int} (h : c.playerOf userId = some seat) : seat ∈ seats :=
  List.mem_of_find?_eq_some h

theorem playerOf_userId (hseat : seat ∈ seats) : c.playerOf (c.userId seat) = some seat := by
  have hsome : (c.playerOf (c.userId seat)).isSome = true := by
    rw [Config.playerOf, List.find?_isSome]
    exact ⟨seat, hseat, by simp⟩
  obtain ⟨i, hi⟩ := Option.isSome_iff_exists.mp hsome
  have he : c.userId i = c.userId seat := by simpa using List.find?_some hi
  rw [hi, c.userId_inj i (mem_seats_of_playerOf hi) seat hseat he]

theorem stopTimers_eq (s : State) :
    ((s.stopTimer .opOutCard).stopTimer .opDarwCard).stopTimer .opBuGangCard =
      { s with timers := opStopped s.timers } := by
  simp only [State.stopTimer]
  congr 1
  funext key
  cases key <;> rfl

theorem opStopped_update (timers : Timer → Option Nat) {key : Timer}
    (h : key = .opOutCard ∨ key = .opDarwCard ∨ key = .opBuGangCard) :
    opStopped (Function.update timers key none) = opStopped timers := by
  funext k
  obtain rfl | rfl | rfl := h <;> cases k <;> rfl

/-- A hand with 14 tiles and melds is not empty. -/
theorem Playing.hand_ne_nil (hp : Playing s) (ht : s.turnStatus) : s.hand s.curSeat ≠ [] := by
  intro hnil
  have hsize := hp.turn ht s.curSeat hp.cur
  rw [if_pos rfl, State.size, hnil, List.length_nil] at hsize
  omega

theorem setLastDone_isSome {gangs : List GangInfo} (done : Bool) (h : gangs ≠ []) :
    ∃ gangs', setLastDone done gangs = some gangs' := by
  induction gangs with
  | nil => exact absurd rfl h
  | cons v vs ih =>
    cases vs with
    | nil => exact ⟨_, rfl⟩
    | cons w ws =>
      obtain ⟨gangs', hg⟩ := ih (List.cons_ne_nil w ws)
      exact ⟨v :: gangs', by simp [setLastDone, hg]⟩

/-- No seat has selected an operation: the phase is passed. -/
theorem next_of_allPassed {l : Label} (hp : Playing s) (hpass : Passes c s l) (offers : Option (Seat → Offer)) :
    Next c s l (allPassed c { s with offers := offers, timers := opStopped s.timers }) := by
  unfold allPassed State.clearUserOp
  simp only []
  obtain hs | hs | hs | hs := hp.status
  · simp only [hs]
    have hn : Next c s l (.returned { s.clearUserOp with timers := opStopped s.timers }) := .stale hp hs
    simpa only [State.clearUserOp, hs] using hn
  · simp only [hs]
    exact .passOut hp hs hpass
  · simp only [hs, hp.cur, if_true]
    exact .passDraw hp hs hpass rfl
  · simp only [hs]
    obtain ⟨v, hv, -⟩ := hp.gangs hs
    have hne : s.gangs ≠ [] := by
      intro hnil
      rw [hnil] at hv
      cases hv
    obtain ⟨gangs, hg⟩ := setLastDone_isSome true hne
    simp only [hg]
    exact .passBuGang hp hs hpass hg

theorem next_of_hasAllOp_selected {l : Label} {o : Seat → Offer} (hp : Playing s) (hseat : seat ∈ seats)
    (hop : op ∈ s.phaseOps seat) (htake : taking c s l = some (seat, op))
    (hsel : firstSelected o seats = some (seat, op)) :
    Next c s l (onClientUserHasAllOp c { s with offers := some o }) := by
  unfold onClientUserHasAllOp
  rw [stopTimers_eq]
  simp only [hsel]
  split
  · rename_i hw
    exact .win hp hseat hop hw htake
  · rename_i hw
    exact .take hp hseat hop (Bool.eq_false_iff.mpr hw) htake

theorem next_of_hasAllOp_none {l : Label} {o : Seat → Offer} {timers : Timer → Option Nat} (hp : Playing s)
    (hpass : Passes c s l) (ht : opStopped timers = opStopped s.timers) (hsel : firstSelected o seats = none) :
    Next c s l (onClientUserHasAllOp c { s with offers := some o, timers := timers }) := by
  unfold onClientUserHasAllOp
  rw [stopTimers_eq]
  simp only [hsel, ht]
  exact next_of_allPassed hp hpass _

/-- The message `OutCard`, and the timer that sends it for the current player. -/
theorem next_of_outCard {l : Label} {tuoGuan : Seat → Bool} {sent : List (Seat × Packet)}
    {timers : Timer → Option Nat} {userId v : Int} (hi : Inv s)
    (hl : l = .outCard userId v ∧ timers = s.timers ∨
      s.status = .outCard ∧ timers = Function.update s.timers .outCard none ∧ c.playerOf userId = some s.curSeat ∧
        ∃ card ∈ s.hand s.curSeat, (card : Int) = v ∧ discarding c s l = some card) :
    Next c s l (onClientCmdOutCard c { s with tuoGuan := tuoGuan, sent := sent, timers := timers } userId v) := by
  have hdisc : ∀ seat card, discarded c { s with tuoGuan := tuoGuan, sent := sent, timers := timers } seat card =
      discarded c { s with tuoGuan := tuoGuan, sent := sent } seat card := by
    intro seat card
    obtain ⟨-, rfl⟩ | ⟨-, rfl, -⟩ := hl
    · rfl
    · simp only [discarded, State.stopTimer, Function.update_idem]
      rfl
  have haside : (s.status = .outCard → c.playerOf userId = some s.curSeat →
      (∃ card ∈ s.hand s.curSeat, (card : Int) = v ∧ discarding c s l = some card) → False) →
      Next c s l (.returned { s with tuoGuan := tuoGuan, sent := sent, timers := timers }) := by
    intro hno
    obtain ⟨-, rfl⟩ | ⟨hs, -, hu, hc⟩ := hl
    · exact .aside
    · exact absurd (hno hs hu hc) id
  unfold onClientCmdOutCard
  split
  · rename_i hu
    refine haside fun _ hu' _ => ?_
    rw [hu] at hu'
    cases hu'
  · rename_i seat hu
    split
    · rename_i hf
      refine haside fun _ hu' ⟨card, hcard, hv, _⟩ => ?_
      rw [hu] at hu'
      cases hu'
      have hnone := List.find?_eq_none.mp hf card hcard
      simp [hv] at hnone
    · rename_i card hf
      have hcard : card ∈ s.hand seat := List.mem_of_find?_eq_some hf
      have hv : (card : Int) = v := by simpa using List.find?_some hf
      split
      · rename_i hst
        exact haside fun hs _ _ => hst.1 hs
      · rename_i hst
        have hturn : s.turnStatus := by
          by_contra hno
          exact hst ⟨fun h => hno (.inl h), fun h => hno (.inr h)⟩
        split
        · rename_i hcur
          refine haside fun _ hu' _ => ?_
          rw [hu] at hu'
          cases hu'
          exact hcur rfl
        · rename_i hcur
          have hcur' : s.curSeat = seat := by simpa using hcur
          subst hcur'
          have hp : Playing s := by
            cases hi with
            | playing hp => exact hp
            | start h => obtain h' | h' := hturn <;> rw [h] at h' <;> cases h'
            | dealt h => obtain h' | h' := hturn <;> rw [h] at h' <;> cases h'
            | first h => obtain h' | h' := hturn <;> rw [h] at h' <;> cases h'
          have hwho : discarding c s l = some card := by
            obtain ⟨rfl, -⟩ | ⟨-, -, -, w, -, hw, hdisc⟩ := hl
            · exact (if_pos ⟨hturn, hu⟩).trans hf
            · rw [hdisc, Int.ofNat_inj.mp (hw.trans hv.symm)]
          simp only [hdisc]
          split
          · rename_i hop
            exact .claim hp hturn hwho hcard rfl hop
          · rename_i hop
            exact .discard hp hturn hwho hcard rfl (Bool.eq_false_iff.mpr hop)

theorem Inv.playing_of_op (hi : Inv s) (h : s.opStatus) : Playing s := by
  cases hi with
  | playing hp => exact hp
  | start hs => obtain h | h | h := h <;> rw [hs] at h <;> cases h
  | dealt hs => obtain h | h | h := h <;> rw [hs] at h <;> cases h
  | first hs => obtain h | h | h := h <;> rw [hs] at h <;> cases h

theorem next_of_takeOperation {userId iOpValue iCardValue : Int} (hi : Inv s) :
    Next c s (.takeOperation userId iOpValue iCardValue)
      (onClientCmdTakeOpreation c s userId iOpValue iCardValue) := by
  unfold onClientCmdTakeOpreation
  split
  · exact .aside
  · rename_i hst
    have hop : s.opStatus := by
      by_contra hno
      exact hst ⟨fun h => hno (.inl h), fun h => hno (.inr (.inl h)), fun h => hno (.inr (.inr h))⟩
    have hp : Playing s := hi.playing_of_op hop
    obtain ⟨o, ho, hoff, -⟩ := hp.offers
    split
    · exact .aside
    · rename_i seat hu
      simp only [ho]
      obtain hdec | ⟨op, hmem, -, -, -, hpend, hfirst⟩ := hoff.answered seat iOpValue iCardValue
      · rw [hdec]
        have hoff' := hoff.decline seat
        split
        · rename_i hany
          exact .decline ho hp hop (hoff'.pending.mp hany)
        · rename_i hany
          have hfirst := firstSelected_none hoff'.selected_none seats
          refine next_of_hasAllOp_none hp ⟨seat, o, hu, ho, ?_, ?_⟩ rfl hfirst
          · rw [hdec]
            intro i hmem
            exact Bool.eq_false_iff.mpr fun h => hany (List.any_eq_true.mpr ⟨i, hmem, h⟩)
          · rw [hdec]
            exact hfirst
      · have hany : (seats.any fun i => (answered o seat iOpValue iCardValue i).pending) = false := by
          rw [List.any_eq_false]
          intro i _
          rw [hpend i]
          exact Bool.false_ne_true
        have hseat := mem_seats_of_playerOf hu
        have htake : taking c s (.takeOperation userId iOpValue iCardValue) = some (seat, op) := by
          have hc : s.status = .opOutCard ∨ s.status = .opDrawCard ∨ s.status = .opBuGangCard := hop
          simp only [taking, hc, if_true, hu, ho, hany]
          exact hfirst seats hseat
        simp only [hany]
        exact next_of_hasAllOp_selected hp hseat hmem htake (hfirst seats hseat)

theorem Inv.playing_of_timer {key : Timer} (hi : Inv s)
    (hkey : key = .opOutCard ∨ key = .opDarwCard ∨ key = .opBuGangCard) (ht : s.timers key ≠ none) : Playing s := by
  cases hi with
  | playing hp => exact hp
  | start _ _ _ _ h => exact absurd (h key (by obtain rfl | rfl | rfl := hkey <;> nofun)) ht
  | dealt _ _ _ h => exact absurd (h key (by obtain rfl | rfl | rfl := hkey <;> nofun)) ht
  | first _ _ _ _ h => exact absurd (h key (by obtain rfl | rfl | rfl := hkey <;> nofun)) ht

theorem next_of_opTimer {key : Timer} {dice : List Int} (hi : Inv s)
    (hkey : key = .opOutCard ∨ key = .opDarwCard ∨ key = .opBuGangCard) (ht : s.timers key ≠ none) :
    Next c s (.timer key dice) (onClientUserHasAllOp c (s.stopTimer key)) := by
  have hp : Playing s := hi.playing_of_timer hkey ht
  obtain ⟨o, ho, hoff, -⟩ := hp.offers
  have hfirst := firstSelected_none hoff.selected_none seats
  have hn := next_of_hasAllOp_none (c := c) (l := .timer key dice) hp ⟨hkey, ht, o, ho, hfirst⟩
    (opStopped_update s.timers hkey) hfirst
  rw [← ho] at hn
  exact hn

/-- A state with `Inv` has no other outcome. -/
theorem next_of_handled {l : Label} {r : Outcome} (hi : Inv s) (h : handled c s l = some r) : Next c s l r := by
  cases l with
  | outCard userId v =>
    cases h
    exact next_of_outCard hi (.inl ⟨rfl, rfl⟩)
  | takeOperation userId iOpValue iCardValue =>
    cases h
    exact next_of_takeOperation hi
  | requestAI userId iAiType =>
    cases h
    unfold onClientCmdRequestAI
    split
    · exact .aside
    · exact .aside
  | reconnect userId =>
    cases h
    unfold onSendUserReconnetSucccess
    split
    · exact .aside
    · split
      · split
        · rename_i hbattle
          exact .noReconnect (.inl hbattle)
        · exact .aside
      · rename_i hfit
        refine .noReconnect (.inr ?_)
        simp only [byteFits, decide_eq_true_eq] at hfit
        have hmod := Nat.mod_le s.pool.length 256
        omega
  | timer key dice =>
    simp only [handled] at h
    split at h
    · rename_i time ht
      cases h
      have hne : s.timers key ≠ none := by
        rw [ht]
        nofun
      cases hi with
      | start hs hix hpool hhand htm =>
        have hkey : key = .makeBanker := by
          by_contra hk
          exact hne (htm key hk)
        subst hkey
        exact .deal hs hix
      | dealt hs hix heven htm =>
        have hkey : key = .dealCards := by
          by_contra hk
          exact hne (htm key hk)
        subst hkey
        exact .begin hs hix
      | first hs hix hcur heven htm =>
        have hkey : key = .drawCard := by
          by_contra hk
          exact hne (htm key hk)
        subst hkey
        have hn : Next c s (.timer .drawCard dice) (drawCard c (s.stopTimer .drawCard) 1) := .first hs hcur
        rw [← hcur] at hn
        exact hn
      | playing hp =>
        cases key with
        | makeBanker => exact absurd hp.timers.1 hne
        | dealCards => exact absurd hp.timers.2.1 hne
        | drawCard => exact absurd hp.timers.2.2 hne
        | opOutCard => exact next_of_opTimer (.playing hp) (.inl rfl) hne
        | opDarwCard => exact next_of_opTimer (.playing hp) (.inr (.inl rfl)) hne
        | opBuGangCard => exact next_of_opTimer (.playing hp) (.inr (.inr rfl)) hne
        | outCard =>
          have hs : s.status = .outCard := hp.outCard hne
          have hhand := hp.hand_ne_nil (.inl hs)
          obtain ⟨card, hlast⟩ : ∃ card, (s.hand s.curSeat).getLast? = some card :=
            ⟨_, List.getLast?_eq_getLast_of_ne_nil hhand⟩
          simp only [fired, onOutCardTimerTimeOut, State.stopTimer, hp.cur, if_true, hlast]
          refine next_of_outCard (.playing hp) (.inr ⟨hs, rfl, playerOf_userId hp.cur, card, ?_, rfl, ?_⟩)
          · exact List.mem_of_getLast? hlast
          · exact (if_pos hne).trans hlast
    · cases h

/-! ### Hands and melds -/

theorem length_eraseTimes {v n : Nat} {hand : List Nat} (h : n ≤ hand.count v) :
    (eraseTimes v n hand).length + n = hand.length := by
  induction n generalizing hand with
  | zero => rfl
  | succ n ih =>
    have hmem : v ∈ hand := List.count_pos_iff.mp (by omega)
    have hcount : n ≤ (hand.erase v).count v := by
      rw [List.count_erase_self]
      omega
    have hlen := List.length_erase_of_mem hmem
    have hpos := List.length_pos_of_mem hmem
    have hrest := ih hcount
    rw [eraseTimes]
    omega

theorem length_replaceFirst (p : Op → Bool) (m : Op) (hs : List Op) : (replaceFirst p m hs).length = hs.length := by
  induction hs with
  | nil => rfl
  | cons h hs ih =>
    rw [replaceFirst]
    split
    · rfl
    · rw [List.length_cons, List.length_cons, ih]

theorem setLastDone_append (done : Bool) (vs : List GangInfo) (v : GangInfo) :
    setLastDone done (vs ++ [v]) = some (vs ++ [{ v with iIsDone := done }]) := by
  induction vs with
  | nil => rfl
  | cons w ws ih =>
    rw [List.cons_append, List.cons_append, setLastDone, ih]
    · rfl
    · intro h
      simp at h

/-- The record of a bu gang. -/
def buGangInfo (c : Config) (seat payer : Seat) (card : Nat) : GangInfo :=
  { iSeatId := seat
    iTSeatId := payer
    iOpValue := BU_GANG
    iCardValue := card
    iIsDone := true
    iGSPSeatIds := []
    iQGHSeatIds := none
    iGangTurnMoney := allPay seats seat (1 * c.iBasePoint) }

theorem hasOp_eq {ops : Seat → List Op} (h : s.offers = some fun i => .of (ops i))
    (hc : ∀ i, ∀ op ∈ ops i, Coded op) : s.hasOp = true ↔ ∃ i ∈ seats, ops i ≠ [] := by
  simp only [State.hasOp, h, List.any_eq_true, Offer.of, decide_eq_true_eq]
  constructor
  · rintro ⟨i, hi, hpos⟩
    refine ⟨i, hi, ?_⟩
    intro hnil
    rw [hnil] at hpos
    exact absurd hpos (Nat.lt_irrefl 0)
  · rintro ⟨i, hi, hne⟩
    exact ⟨i, hi, Nat.pos_of_ne_zero fun hz => hne (opValue_eq_zero (hc i) hz)⟩

theorem robOps_eq_nil (h : isBuGang op.iOpValue = false) (i : Seat) : robOps s seat op i = [] := by
  simp only [robOps, h, Bool.false_and, Bool.false_eq_true, if_false]

/-- Only a bu gang can be robbed. -/
theorem taken_hasOp (h : isBuGang op.iOpValue = false) : (taken c s seat op).hasOp = false := by
  rw [Bool.eq_false_iff]
  intro hop
  obtain ⟨i, -, hne⟩ := (hasOp_eq rfl fun i op' hop' => coded_robOps hop').mp hop
  exact hne (robOps_eq_nil h i)

/-! ### What an operation does -/

theorem peng_code : isPeng PENG = true ∧ isGang PENG = false ∧ isAnGang PENG = false ∧ isBuGang PENG = false := by
  decide

theorem gang_code : isPeng GANG = false ∧ isGang GANG = true ∧ isAnGang GANG = false ∧ isBuGang GANG = false := by
  decide

theorem anGang_code :
    isPeng AN_GANG = false ∧ isGang AN_GANG = false ∧ isAnGang AN_GANG = true ∧ isBuGang AN_GANG = false := by
  decide

theorem buGang_code :
    isPeng BU_GANG = false ∧ isGang BU_GANG = false ∧ isAnGang BU_GANG = false ∧ isBuGang BU_GANG = true := by
  decide

theorem takeOp_peng (c : Config) (s : State) (seat : Seat) (v : Nat) :
    onDealClientUserTakeOp c s seat ⟨PENG, v⟩ =
      .returned ({ taken c (melded s seat ⟨PENG, v⟩) seat ⟨PENG, v⟩ with
        status := .outCard, curSeat := seat }.startTimer .outCard (c.outCardTime s seat)) := by
  have hop : (taken c (melded s seat ⟨PENG, v⟩) seat ⟨PENG, v⟩).hasOp = false := taken_hasOp peng_code.2.2.2
  unfold onDealClientUserTakeOp onDealGangTurnMoney
  simp only [hop, peng_code, Bool.or_self, Bool.false_eq_true, if_false]
  rfl

theorem takeOp_gang (c : Config) (s : State) (seat : Seat) (v : Nat) :
    onDealClientUserTakeOp c s seat ⟨GANG, v⟩ =
      drawCard c { taken c (melded s seat ⟨GANG, v⟩) seat ⟨GANG, v⟩ with status := .drawCard, curSeat := 0 }
        seat := by
  have hop : (taken c (melded s seat ⟨GANG, v⟩) seat ⟨GANG, v⟩).hasOp = false := taken_hasOp gang_code.2.2.2
  unfold onDealClientUserTakeOp onDealGangTurnMoney
  simp only [hop, gang_code, Bool.or_self, Bool.true_or, Bool.false_eq_true, if_false, if_true]

theorem takeOp_anGang (c : Config) (s : State) (seat : Seat) (v : Nat) :
    onDealClientUserTakeOp c s seat ⟨AN_GANG, v⟩ = .raised (melded s seat ⟨AN_GANG, v⟩) .nilMethod := by
  unfold onDealClientUserTakeOp onDealGangTurnMoney onSetGangTurnMonyInfo
  simp only [anGang_code, Bool.or_true, Bool.false_eq_true, if_false, if_true, Option.map_none]

/-- A bu gang, after its record is made. -/
def buGanged (c : Config) (s : State) (seat : Seat) (v : Nat) : State :=
  taken c { melded s seat ⟨BU_GANG, v⟩ with gangs := s.gangs ++ [buGangInfo c seat s.curSeat v] } seat ⟨BU_GANG, v⟩

theorem takeOp_buGang (c : Config) (s : State) (seat : Seat) (v : Nat) :
    onDealClientUserTakeOp c s seat ⟨BU_GANG, v⟩ =
      if (buGanged c s seat v).hasOp then
        .returned ({ buGanged c s seat v with
          gangs := s.gangs ++ [{ buGangInfo c seat s.curSeat v with iIsDone := false }]
          status := .opBuGangCard }.startTimer .opBuGangCard (c.iOperationTime * 1000))
      else drawCard c { buGanged c s seat v with status := .drawCard, curSeat := 0 } seat := by
  have hmoney : onDealGangTurnMoney c (melded s seat ⟨BU_GANG, v⟩) seat ⟨BU_GANG, v⟩ =
      some { melded s seat ⟨BU_GANG, v⟩ with gangs := s.gangs ++ [buGangInfo c seat s.curSeat v] } := by
    unfold onDealGangTurnMoney onSetGangTurnMonyInfo
    simp only [buGang_code, Bool.true_or, Bool.false_eq_true, if_false, if_true, Option.map_some]
    rfl
  have hlast : setLastDone false (buGanged c s seat v).gangs =
      some (s.gangs ++ [{ buGangInfo c seat s.curSeat v with iIsDone := false }]) := setLastDone_append false _ _
  unfold buGanged at hlast
  unfold onDealClientUserTakeOp
  simp only [hmoney, buGang_code, Bool.true_or, Bool.false_or, if_true]
  rw [hlast]
  rfl

theorem drawCard_cases (hs : s.status = .drawCard) (hseat : seat ∈ seats) :
    (∃ card pool, s.pool = card :: pool ∧
      drawCard c s seat = .returned (drawn c { s with pool := pool } seat card)) ∨
      (s.pool = [] ∧ drawCard c s seat = onGameStopRound c s 0) := by
  unfold drawCard
  rw [if_neg (by rw [hs]; exact fun h => h rfl)]
  split
  · rename_i hpool
    exact .inr ⟨hpool, rfl⟩
  · rename_i card pool hpool
    rw [if_pos hseat]
    exact .inl ⟨card, pool, hpool, rfl⟩

theorem onGameStopRound_over {result : Nat} (h : onGameStopRound c s result = .returned t) : t.finished = true := by
  unfold onGameStopRound at h
  simp only [] at h
  split at h
  · cases h
  · split at h
    · cases h
      rfl
    · cases h

end Mahjong
end Skynet
