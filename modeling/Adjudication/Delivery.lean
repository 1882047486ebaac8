import Adjudication.Network
import Adjudication.Transit
import Adjudication.Wire.Frame

namespace Adjudication.Network

/-- Delivers a frame, and carries the answer back. Services answer from a state that they share; one
that crashes gives no answer. -/
def deliver {σ ω : Type} [DecidableEq σ] (net : Network σ)
    (handle : σ → Address → Request → ω → Option Response × ω) (sender receiver : Address)
    (frame : Bytes) (state : ω) : Landing × ω :=
  match net.route sender receiver, Wire.ofFrame Wire.request frame with
  | .error e, _ | .ok _, .error e => (.answered (.error e), state)
  | .ok service, .ok request =>
    match handle service sender request state with
    | (none, state) => (.crashed, state)
    | (some response, state) =>
      (.answered (Wire.toFrame Wire.response response >>= Wire.ofFrame Wire.response), state)

end Adjudication.Network
