import Adjudication.Message

namespace Adjudication

inductive Landing
  | answered (reply : Except RpcError Response)
  | timedOut
  | crashed

/-- A call on its way: it departs, travels if links are slow, and lands. -/
inductive Transit
  | departing (request : Request)
  /-- Under way; lost if it would arrive only after `expires`. -/
  | travelling (frame : Bytes) (arrives expires : Nat)
  | landed (landing : Landing)

namespace Transit

/-- When there is something to do next; a moment that is past means at once. -/
def readyAt : Transit → Nat
  | departing _ | landed _ => 0
  | travelling _ arrives expires => min arrives expires

def landing? : Transit → Option Landing
  | landed l => some l
  | departing _ | travelling .. => none

end Transit

namespace Response

def attestation : Response → Except RpcError Attestation
  | roundState a => .ok a
  | failure reason => .error reason
  | gossip _ => .error (.codec "unexpected gossip reply")

def gossipReply : Response → Except RpcError GossipReply
  | gossip reply => .ok reply
  | failure reason => .error reason
  | roundState _ => .error (.codec "unexpected round state reply")

end Response

end Adjudication
