import Mathlib.Logic.Function.Basic
import Mathlib.Data.List.Basic
import Mathlib.Data.Nat.Bitwise

/-!
# Skynet.Mahjong.Rules

The rules of a mahjong round for the GD game: operation codes (`logic/common/operationType.lua`), which
operations a hand allows (`logic/common/gameRoundLogic.lua`, `logic/gamegdmj/gameRoundLogicGD.lua`), and the
money of gangs and wins.

A tile is its code. A hand is the list of the tiles in it, a meld (`iHandleCardMap`) and an offered operation are
an operation code with a tile. Seats are integers, as the source uses 0 and -1 for no seat.

* `onGetUserOpValueWhenDrawCard`, `-WhenOutCard`, `-WhenBuGang` : the operations offered to a seat.
* `onSetGangTurnMonyInfo`, `onSetHuTurnMonyInfo` : what a gang and a win cost each seat.
* `onGetGameStopHuInfo` : the totals of a round. `none` is an error.
-/

namespace Skynet
namespace Mahjong

abbrev Seat := Int

/-! ### Operation codes -/

def PENG : Nat := 0x0008
def GANG : Nat := 0x0010
def AN_GANG : Nat := 0x0020
def BU_GANG : Nat := 0x0040
def HU : Nat := 0x0100
def ZIMO : Nat := 0x0200
def QIANGGANGHU : Nat := 0x0400
def GANGSHANGKAIHUA : Nat := 0x0800
def GANGSHANGPAO : Nat := 0x1000
def GUO : Nat := 0x8000

def isOp (op operateValue : Nat) : Bool := operateValue &&& op == op

def isPeng := isOp PENG
def isGang := isOp GANG
def isAnGang := isOp AN_GANG
def isBuGang := isOp BU_GANG
def isHu := isOp HU
def isZiMo := isOp ZIMO
def isQiangGangHu := isOp QIANGGANGHU
def isGangShangKaiHua := isOp GANGSHANGKAIHUA
def isGangShangPao := isOp GANGSHANGPAO
def isGuo := isOp GUO

/-- An operation with its tile: one that is offered, or a meld. -/
structure Op where
  iOpValue : Nat
  iCardValue : Nat
deriving Repr, DecidableEq

/-- `pOpValue | pOpType` over the offered operations. -/
def opValue (ops : List Op) : Nat := ops.foldl (fun v op => v ||| op.iOpValue) 0

/-! ### Tiles -/

/-- `onGetCardTypeTable`: the kinds of tiles (characters, circles, bamboos, winds, dragons), and how many of each. -/
def onGetCardTypeTable : List (Nat × Nat) := [(0, 9), (1, 9), (2, 9), (3, 4), (4, 3)]

/-- The tiles of `initMahjongPool` before they are shuffled: four of each. -/
def mahjongPool : List Nat :=
  onGetCardTypeTable.flatMap fun (cardType, n) =>
    (List.range n).flatMap fun i => List.replicate 4 (cardType * 16 + (i + 1))

/-! ### What a hand allows -/

def isCanPeng (handCards : List Nat) (cardValue : Nat) : Bool := 2 ≤ handCards.count cardValue
def isCanGang (handCards : List Nat) (cardValue : Nat) : Bool := 3 ≤ handCards.count cardValue
def isCanAnGang (handCards : List Nat) (cardValue : Nat) : Bool := 4 ≤ handCards.count cardValue

def isCanBuGang (handleCards : List Op) (cardValue : Nat) : Bool :=
  handleCards.any fun m => m.iCardValue == cardValue && isPeng m.iOpValue

/-- `compute` on the number of tiles of each code, with the codes `keys`. The order in which `pairs` visits them
does not matter: a branch that fails restores the table. Each call takes three tiles away. -/
def compute (keys : List Nat) : Nat → (Nat → Nat) → Bool
  | fuel, handCards =>
    if (keys.map handCards).sum = 0 then true
    else
      match fuel with
      | 0 => false
      | fuel + 1 =>
        (keys.any fun k => decide (3 ≤ handCards k) &&
          compute keys fuel (Function.update handCards k (handCards k - 3))) ||
        (keys.any fun k => decide (0 < handCards k ∧ 0 < handCards (k + 1) ∧ 0 < handCards (k + 2)) &&
          compute keys fuel (fun c => if c = k ∨ c = k + 1 ∨ c = k + 2 then handCards c - 1 else handCards c))

/-- First take a pair away. -/
def isNormalHu (keys : List Nat) (handCards : Nat → Nat) : Bool :=
  keys.any fun k => decide (2 ≤ handCards k) &&
    compute keys (keys.map handCards).sum (Function.update handCards k (handCards k - 2))

/-- `isCanHu`. The tile 0 stands for none. -/
def isCanHu (handCards : List Nat) (cardValue : Nat) : Bool :=
  let cards := if 0 < cardValue then handCards ++ [cardValue] else handCards
  isNormalHu cards.dedup cards.count

/-- The `AN_GANG` operations, one for each tile that is in the hand four times. -/
def anGangOps (handCards : List Nat) : List Op :=
  handCards.foldl (fun ops v =>
    if isCanAnGang handCards v && !(ops.any fun op => op.iCardValue == v) then ops ++ [⟨AN_GANG, v⟩] else ops) []

def buGangOps (handCards : List Nat) (handleCards : List Op) : List Op :=
  (handCards.filter (isCanBuGang handleCards)).map fun v => ⟨BU_GANG, v⟩

def onGetUserOpValueWhenDrawCard (handCards : List Nat) (handleCards : List Op) (cardValue : Nat) : List Op :=
  anGangOps handCards ++ buGangOps handCards handleCards ++
    if isCanHu handCards 0 then [⟨ZIMO, cardValue⟩] else []

def onGetUserOpValueWhenOutCard (handCards : List Nat) (cardValue : Nat) : List Op :=
  (if isCanGang handCards cardValue then [⟨GANG, cardValue⟩] else []) ++
    if isCanPeng handCards cardValue then [⟨PENG, cardValue⟩] else []

def onGetUserOpValueWhenBuGang (handCards : List Nat) (cardValue : Nat) : List Op :=
  if isCanHu handCards cardValue then [⟨QIANGGANGHU, cardValue⟩] else []

/-! ### The operations offered -/

theorem mem_onGetUserOpValueWhenOutCard {handCards : List Nat} {cardValue : Nat} {op : Op}
    (h : op ∈ onGetUserOpValueWhenOutCard handCards cardValue) :
    (op = ⟨GANG, cardValue⟩ ∧ 3 ≤ handCards.count cardValue) ∨
      (op = ⟨PENG, cardValue⟩ ∧ 2 ≤ handCards.count cardValue) := by
  simp only [onGetUserOpValueWhenOutCard, List.mem_append] at h
  obtain h | h := h
  · split at h
    · rename_i hg
      exact .inl ⟨List.mem_singleton.mp h, of_decide_eq_true hg⟩
    · cases h
  · split at h
    · rename_i hp
      exact .inr ⟨List.mem_singleton.mp h, of_decide_eq_true hp⟩
    · cases h

theorem mem_onGetUserOpValueWhenBuGang {handCards : List Nat} {cardValue : Nat} {op : Op}
    (h : op ∈ onGetUserOpValueWhenBuGang handCards cardValue) : op = ⟨QIANGGANGHU, cardValue⟩ := by
  simp only [onGetUserOpValueWhenBuGang] at h
  split at h
  · exact List.mem_singleton.mp h
  · cases h

theorem mem_anGangOps {handCards : List Nat} {op : Op} (h : op ∈ anGangOps handCards) :
    op.iOpValue = AN_GANG ∧ 4 ≤ handCards.count op.iCardValue := by
  have hfold : ∀ (vs : List Nat) (ops : List Op),
      (∀ op ∈ ops, op.iOpValue = AN_GANG ∧ 4 ≤ handCards.count op.iCardValue) →
      ∀ op ∈ vs.foldl (fun ops v => if isCanAnGang handCards v && !(ops.any fun op => op.iCardValue == v)
        then ops ++ [⟨AN_GANG, v⟩] else ops) ops, op.iOpValue = AN_GANG ∧ 4 ≤ handCards.count op.iCardValue := by
    intro vs
    induction vs with
    | nil => exact fun ops hops => hops
    | cons v vs ih =>
      intro ops hops
      refine ih _ ?_
      dsimp only
      split
      · rename_i hc
        intro op hop
        obtain hop | hop := List.mem_append.mp hop
        · exact hops op hop
        · cases List.mem_singleton.mp hop
          exact ⟨rfl, of_decide_eq_true (Bool.and_eq_true_iff.mp hc).1⟩
      · exact hops
  exact hfold handCards [] (by simp) op h

theorem mem_buGangOps {handCards : List Nat} {handleCards : List Op} {op : Op}
    (h : op ∈ buGangOps handCards handleCards) :
    op.iOpValue = BU_GANG ∧ op.iCardValue ∈ handCards ∧
      ∃ m ∈ handleCards, m.iCardValue = op.iCardValue ∧ isPeng m.iOpValue = true := by
  simp only [buGangOps, List.mem_map, List.mem_filter] at h
  obtain ⟨v, ⟨hv, hcan⟩, rfl⟩ := h
  simp only [isCanBuGang, List.any_eq_true, Bool.and_eq_true, beq_iff_eq] at hcan
  exact ⟨rfl, hv, hcan⟩

/-- What is offered after a draw. -/
inductive DrawOp (handCards : List Nat) (handleCards : List Op) (cardValue : Nat) : Op → Prop
  | anGang {v : Nat} : 4 ≤ handCards.count v → DrawOp handCards handleCards cardValue ⟨AN_GANG, v⟩
  | buGang {v : Nat} {m : Op} : v ∈ handCards → m ∈ handleCards → m.iCardValue = v → isPeng m.iOpValue = true →
      DrawOp handCards handleCards cardValue ⟨BU_GANG, v⟩
  | ziMo : DrawOp handCards handleCards cardValue ⟨ZIMO, cardValue⟩

theorem mem_onGetUserOpValueWhenDrawCard {handCards : List Nat} {handleCards : List Op} {cardValue : Nat} {op : Op}
    (h : op ∈ onGetUserOpValueWhenDrawCard handCards handleCards cardValue) :
    DrawOp handCards handleCards cardValue op := by
  obtain ⟨code, v⟩ := op
  simp only [onGetUserOpValueWhenDrawCard, List.mem_append] at h
  obtain (h | h) | h := h
  · obtain ⟨rfl, hc⟩ := mem_anGangOps h
    exact .anGang hc
  · obtain ⟨rfl, hv, m, hm, he, hp⟩ := mem_buGangOps h
    exact .buGang hv hm he hp
  · split at h
    · cases List.mem_singleton.mp h
      exact .ziMo
    · cases h

theorem isOp_two_pow (k v : Nat) : isOp (2 ^ k) v = v.testBit k := by
  rw [isOp, Nat.and_two_pow]
  have hpos : 0 < 2 ^ k := Nat.two_pow_pos k
  cases v.testBit k with
  | false =>
    rw [Bool.toNat_false, Nat.zero_mul, beq_eq_false_iff_ne]
    omega
  | true => simp

theorem testBit_opValue (ops : List Op) (k : Nat) :
    (opValue ops).testBit k = ops.any fun op => op.iOpValue.testBit k := by
  have hfold : ∀ (ops : List Op) (v : Nat),
      (ops.foldl (fun v op => v ||| op.iOpValue) v).testBit k =
        (v.testBit k || ops.any fun op => op.iOpValue.testBit k) := by
    intro ops
    induction ops with
    | nil => simp
    | cons op ops ih =>
      intro v
      rw [List.foldl_cons, ih, Nat.testBit_or, List.any_cons, Bool.or_assoc]
  rw [opValue, hfold, Nat.zero_testBit, Bool.false_or]

theorem opValue_pos {ops : List Op} (h : ∃ op ∈ ops, op.iOpValue ≠ 0) : 0 < opValue ops := by
  obtain ⟨op, hop, hne⟩ := h
  obtain ⟨k, hk⟩ := Nat.exists_testBit_of_ne_zero hne
  refine Nat.pos_of_ne_zero fun hzero => ?_
  have hbit : (opValue ops).testBit k = true := by
    rw [testBit_opValue]
    exact List.any_eq_true.mpr ⟨op, hop, hk⟩
  rw [hzero, Nat.zero_testBit] at hbit
  cases hbit

/-! ### Money -/

/-- An entry of `iGangTurnMoneyTable`. `iQGHSeatIds` is read at the settlement; `none` is nil. -/
structure GangInfo where
  iSeatId : Seat
  iTSeatId : Seat
  iOpValue : Nat
  iCardValue : Nat
  iIsDone : Bool
  iGSPSeatIds : List Seat
  iQGHSeatIds : Option (List Seat)
  iGangTurnMoney : Seat → Int

/-- An entry of `iHuTurnMoneyTable`. -/
structure HuInfo where
  iSeatId : Seat
  iTSeatId : Seat
  iOpValue : Nat
  iCardValue : Nat
  iHandCardMap : List Nat
  iHuTurnMoney : Seat → Int

/-- Each seat but `seat` pays `money` to it. -/
def allPay (users : List Seat) (seat : Seat) (money : Int) : Seat → Int := fun k =>
  if k = seat then (users.filter (· ≠ seat)).length * money else if k ∈ users then -money else 0

/-- `payer` pays `money` to `seat`. -/
def onePays (seat payer : Seat) (money : Int) : Seat → Int :=
  Function.update (Function.update (fun _ => 0) seat money) payer (-money)

/-- `onSetGangTurnMonyInfo`. Its last branch calls `operationType:isBAnGang`, a method that does not exist. -/
def onSetGangTurnMonyInfo (users : List Seat) (info : GangInfo) (basePoint : Int) : Option GangInfo :=
  if isGang info.iOpValue then
    some { info with iGangTurnMoney := onePays info.iSeatId info.iTSeatId (3 * basePoint) }
  else if isBuGang info.iOpValue then
    some { info with iGangTurnMoney := allPay users info.iSeatId (1 * basePoint) }
  else none

def onSetHuTurnMonyInfo (users : List Seat) (info : HuInfo) (basePoint : Int) : HuInfo :=
  if isZiMo info.iOpValue then { info with iHuTurnMoney := allPay users info.iSeatId (2 * basePoint) }
  else if isQiangGangHu info.iOpValue then
    { info with iHuTurnMoney := onePays info.iSeatId info.iTSeatId (6 * basePoint) }
  else { info with iHuTurnMoney := fun _ => 0 }

/-! ### Totals -/

/-- A line of `iFanNameDeatail` or `iLostDeatail`. -/
structure Detail where
  iOpValue : Nat
  iMoney : Int
  iCount : Option Nat
  iCardValue : Option Nat
  iDesName : String
deriving Repr, DecidableEq

/-- The totals of a seat. -/
structure StopInfo where
  iTotalTurnMoney : Int
  iFanNameDeatail : List Detail
  iFanName : String
  iTotalLostMoney : Int
  iLostDeatail : Seat → List Detail

def StopInfo.zero : StopInfo :=
  { iTotalTurnMoney := 0
    iFanNameDeatail := []
    iFanName := ""
    iTotalLostMoney := 0
    iLostDeatail := fun _ => [] }

def onGetGangName (opValue : Nat) : String :=
  if isGang opValue then "明杠"
  else if isAnGang opValue then "暗杠"
  else if isBuGang opValue then "补杠"
  else "明杠"

def huName (opValue : Nat) : String := if isZiMo opValue then "自摸" else "抢杠胡"

/-- A gang is added to the first line with its operation, or gets a line of its own. -/
def merge (temp : Detail) : List Detail → List Detail
  | [] => [temp]
  | d :: ds =>
    if d.iOpValue = temp.iOpValue then
      { d with iMoney := d.iMoney + temp.iMoney, iCount := d.iCount.map (· + 1) } :: ds
    else d :: merge temp ds

/-- A gang in the totals of seat `p`. -/
def StopInfo.addGang (info : StopInfo) (v : GangInfo) (p : Seat) : StopInfo :=
  let money := v.iGangTurnMoney p
  let temp : Detail := ⟨v.iOpValue, money, some 1, none, onGetGangName v.iOpValue⟩
  let info := { info with iTotalTurnMoney := info.iTotalTurnMoney + money }
  if money < 0 then
    { info with
      iTotalLostMoney := info.iTotalLostMoney + money
      iLostDeatail := Function.update info.iLostDeatail v.iSeatId (merge temp (info.iLostDeatail v.iSeatId)) }
  else if 0 < money then { info with iFanNameDeatail := merge temp info.iFanNameDeatail }
  else info

/-- A win in the totals of seat `p`. -/
def StopInfo.addHu (info : StopInfo) (v : HuInfo) (p : Seat) : StopInfo :=
  let money := v.iHuTurnMoney p
  let info := { info with iTotalTurnMoney := info.iTotalTurnMoney + money }
  if money < 0 then
    let temp : Detail := ⟨v.iOpValue, money, none, none, huName v.iOpValue⟩
    { info with
      iTotalLostMoney := info.iTotalLostMoney + money
      iLostDeatail := Function.update info.iLostDeatail v.iSeatId (info.iLostDeatail v.iSeatId ++ [temp]) }
  else if 0 < money then
    let temp : Detail := ⟨v.iOpValue, money, none, some v.iCardValue, huName v.iOpValue⟩
    { info with iFanNameDeatail := info.iFanNameDeatail ++ [temp] }
  else info

/-- The loop over `iGangTurnMoneyTable`. `#v.iQGHSeatIds` is the length of nil where the field is not set. -/
def addGangs (table : Seat → StopInfo) : List GangInfo → Option (Seat → StopInfo)
  | [] => some table
  | v :: vs =>
    match v.iQGHSeatIds with
    | none => none
    | some [] => addGangs (fun p => (table p).addGang v p) vs
    | some (_ :: _) => addGangs table vs

def addHus (table : Seat → StopInfo) (vs : List HuInfo) : Seat → StopInfo := fun p =>
  vs.foldl (fun info v => info.addHu v p) (table p)

def StopInfo.nameGangs (info : StopInfo) : StopInfo :=
  { info with
    iFanName := info.iFanNameDeatail.foldl (fun name q =>
      name ++ " " ++ toString (q.iCount.getD 0) ++ q.iDesName ++ "+" ++ toString q.iMoney) info.iFanName }

def StopInfo.nameAll (info : StopInfo) : StopInfo :=
  { info with
    iFanName := info.iFanNameDeatail.foldl (fun name q => name ++ q.iDesName ++ " ") info.iFanName }

def onGetGameStopHuInfo (gangs : List GangInfo) (hus : List HuInfo) : Option (Seat → StopInfo) :=
  (addGangs (fun _ => .zero) gangs).map fun table p =>
    (addHus (fun p => (table p).nameGangs) hus p).nameAll

end Mahjong
end Skynet
