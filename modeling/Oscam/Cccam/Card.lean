import Oscam.Globals
import Oscam.Lib.Chain

/-!
# Cards of a CCcam network

`struct cc_card` and the comparisons of cards and of services.
-/

namespace Oscam.Cccam

/-- `struct cc_srvid`; a length of zero stands for every length. -/
structure Srvid where
  sid : Nat
  ecmlen : Nat
  deriving DecidableEq, Repr

/-- `struct cc_provider`, with its shared address. -/
structure Provider where
  prov : Nat
  sa : List UInt8
  deriving DecidableEq, Repr

/-- `struct s_sidtab`, a service of the configuration. -/
structure Sidtab where
  caid : List Nat
  provid : List Nat
  srvid : List Nat
  deriving DecidableEq, Repr

inductive CardType where
  | localcard
  | cardByServiceReader
  | cardByServiceUser
  | cardByCaid1
  | cardByCaid2
  | cardByCaid3
  | remotecard
  deriving DecidableEq, Repr

/-- `struct cc_card`.  `addr` is the address of the card, `sidtab` the place
of its service in the configuration. -/
structure Card where
  addr : Nat
  id : Nat
  remoteId : Nat
  caid : Nat
  hop : Nat
  reshare : Nat
  hexserial : List UInt8
  providers : List Provider
  badsids : List Srvid
  goodsids : List Srvid
  remoteNodes : List (List UInt8)
  originReader : Option ReaderId
  cardType : CardType
  sidtab : Option Nat
  grp : Grp
  rdrReshare : Nat
  sidtabno : Nat
  timeout : Int
  isExt : Bool
  deriving DecidableEq, Repr

/-- `sid_eq`. -/
def sidEq (left right : Srvid) : Bool :=
  left.sid == right.sid &&
    (left.ecmlen == right.ecmlen || left.ecmlen == 0 || right.ecmlen == 0)

/-- `cc_UA_valid`. -/
def uaValid (ua : List UInt8) : Bool := ua.any (· != 0)

namespace Card

/-- `is_sid_blocked`. -/
def isSidBlocked (card : Card) (srvid : Srvid) : Bool :=
  card.badsids.any fun bad => sidEq bad srvid

/-- `same_first_node`. -/
def sameFirstNode (left right : Card) : Bool :=
  left.remoteNodes.head? == right.remoteNodes.head?

/-- `same_card2`. -/
def sameCard2 (left right : Card) : Bool :=
  left.caid == right.caid && left.cardType == right.cardType &&
    left.sidtab == right.sidtab && left.grp == right.grp

/-- `same_card`. -/
def sameCard (left right : Card) : Bool :=
  left.remoteId == right.remoteId && left.sameCard2 right &&
    left.sameFirstNode right

end Card

end Oscam.Cccam
