import MiniRedis.Persistence.JsonText
import MiniRedis.Persistence.Soundness
import MiniRedis.Protocol.RoundTrip
import MiniRedis.Server.Handlers

/-!
# Replies to requests

When a request that was parsed gets a reply. The state of a running server is sound
(`sound_reachable`), so the store never raises but for an `EXPIRE` by a number of seconds that
is too large for a float; what else raises is a cluster without nodes and the text of an
unknown command name. `every_request_answered_iff` puts the three together.
-/

namespace MiniRedis

/-- A text of one line. -/
def OneLine (text : String) : Prop := '\r' ∉ text.toList ∧ '\n' ∉ text.toList
deriving Decidable

/-- A response that can be encoded. -/
def Encodable (response : Response) : Prop := ∃ reply, RespEncoder.encode response = .ok reply

namespace RespParser

/-- The number of a line has not too many digits. -/
theorem read_number_line_small {raw : Bytes} {start stop : Nat} {context : String} {number : Int}
    (h : readNumberLine raw start context = .ok (number, stop)) :
    number.natAbs < 10 ^ PyText.maxStrDigits := by
  unfold readNumberLine at h
  split at h
  · cases h
  · simp only at h
    split at h
    · cases h
    · split at h
      · next found hfound =>
          cases h
          obtain ⟨text, -, hparse⟩ := Option.bind_eq_some_iff.mp hfound
          exact PyText.parse_int_bound hparse
      · cases h

/-- The length of a part has a text: it was one. -/
theorem read_bulk_printable {raw : Bytes} {idx stop : Nat} {part : String}
    (h : readBulk raw idx = .ok (part, stop)) : Printable part := by
  unfold readBulk at h
  split at h
  · cases h
  · split at h
    · cases h
    · obtain ⟨⟨bulkLen, middle⟩, hread, hdata⟩ := Except.exists_of_bind_ok h
      simp only [readBulkData] at hdata
      split at hdata
      · cases hdata
      · split at hdata
        · cases hdata
        · split at hdata
          · cases hdata
          · split at hdata
            · next found hfound =>
                cases hdata
                have hsmall := read_number_line_small hread
                have hlength : ((raw.drop middle).take bulkLen.toNat).length ≤ bulkLen.toNat :=
                  List.length_take_le _ _
                rw [Printable, Bytes.of_text_to_text hfound]
                refine PyText.int_text_of_lt ?_
                rw [Int.natAbs_natCast]
                omega
            · cases hdata

theorem read_parts_printable {raw : Bytes} {count idx stop : Nat} {parts : List String}
    (h : readParts raw count idx = .ok (parts, stop)) : ∀ part ∈ parts, Printable part := by
  induction count generalizing idx parts with
  | zero =>
      cases h
      intro part hpart
      cases hpart
  | succ count ih =>
      obtain ⟨⟨first, middle⟩, hread, htail⟩ := Except.exists_of_bind_ok h
      obtain ⟨⟨others, last⟩, hrest, hdone⟩ := Except.exists_of_bind_ok htail
      cases hdone
      intro part hpart
      rcases List.mem_cons.mp hpart with rfl | hmem
      · exact read_bulk_printable hread
      · exact ih hrest part hmem

/-- The arguments of a parsed command are printable. -/
theorem parse_one_printable {raw : Bytes} {command : Command} {consumed : Nat}
    (h : parseOne raw = .ok (command, consumed)) : ∀ arg ∈ command.args, Printable arg := by
  unfold parseOne at h
  split at h
  · cases h
  · split at h
    · cases h
    · obtain ⟨⟨arrayCount, middle⟩, -, harray⟩ := Except.exists_of_bind_ok h
      simp only [readArray] at harray
      split at harray
      · cases harray
      · obtain ⟨⟨parts, last⟩, hparts, hdone⟩ := Except.exists_of_bind_ok harray
        cases hdone
        intro arg harg
        exact read_parts_printable hparts arg (List.mem_of_mem_tail harg)

end RespParser

namespace RespEncoder

/-- An error can be encoded exactly if it is one line. -/
theorem encodable_error_iff {message : String} :
    Encodable (Response.ofError message) ↔ OneLine message := by
  have herror : ∀ text, Encodable (.error text) ↔ OneLine text := by
    intro text
    unfold Encodable OneLine
    by_cases hline : '\r' ∈ text.toList ∨ '\n' ∈ text.toList
    · have hraise : encode (.error text) =
          .error (.valueError "Error cannot contain CR or LF") := by
        simp only [encode, encodeError, validateNoCrlf, if_pos hline]
        rfl
      rw [hraise]
      refine ⟨?_, ?_⟩
      · rintro ⟨reply, hreply⟩
        cases hreply
      · rintro ⟨hcr, hlf⟩
        exact absurd hline (by simp [hcr, hlf])
    · have hreply : encode (.error text) =
          .ok (Bytes.ofText "-" ++ Bytes.ofText text ++ Bytes.crlf) := by
        simp only [encode, encodeError, validateNoCrlf, if_neg hline]
        rfl
      rw [hreply]
      exact ⟨fun _ => not_or.mp hline, fun _ => ⟨_, rfl⟩⟩
  unfold Response.ofError
  split
  · exact herror message
  · rw [herror]
    unfold OneLine
    rw [String.toList_append]
    have hletters : "ERR ".toList = ['E', 'R', 'R', ' '] := by decide
    simp [hletters]

/-- A small integer can be encoded. -/
theorem encodable_bit {bit : Int} (h : bit = 0 ∨ bit = 1) : Encodable (.integer bit) := by
  rcases h with rfl | rfl
  · exact ⟨_, rfl⟩
  · exact ⟨_, rfl⟩

theorem encodable_bulk_string {found : Option String}
    (h : ∀ value, found = some value → Printable value) :
    Encodable (Response.ofBulkString found) := by
  cases found with
  | none => exact ⟨_, rfl⟩
  | some value =>
      obtain ⟨length, hlength⟩ := h value rfl
      simp only [Encodable, Response.ofBulkString, RespEncoder.encode,
        RespEncoder.encodeBulkString, hlength]
      exact ⟨_, rfl⟩

theorem encodable_integer {value : Int} {text : String} (h : PyText.intText value = .ok text) :
    Encodable (.integer value) := by
  simp only [Encodable, RespEncoder.encode, RespEncoder.encodeInteger, h]
  exact ⟨_, rfl⟩

end RespEncoder

/-- A text of two parts is one line if both are. -/
theorem OneLine.append {first second : String} (h : OneLine first) (h' : OneLine second) :
    OneLine (first ++ second) := by
  obtain ⟨hcr, hlf⟩ := h
  obtain ⟨hcr', hlf'⟩ := h'
  simp [OneLine, String.toList_append, hcr, hlf, hcr', hlf']

/-- The text of a number is one line. -/
theorem one_line_int {n : Int} {text : String} (h : PyText.intText n = .ok text) :
    OneLine text := by
  refine ⟨?_, ?_⟩
  · exact PyText.not_mem_int_text h (by decide) (by decide)
  · exact PyText.not_mem_int_text h (by decide) (by decide)

namespace Dispatcher

section Routing

variable {dispatcher : Dispatcher}

/-- No host name of the cluster breaks a line. -/
def PlainHosts (dispatcher : Dispatcher) : Prop :=
  ∀ cluster, dispatcher.cluster = some cluster → ∀ node ∈ cluster.nodes, OneLine node.host

/-- There is a node for the key of the command, if both exist. -/
def Routed (dispatcher : Dispatcher) (command : Command) : Prop :=
  ∀ cluster, dispatcher.cluster = some cluster → command.key ≠ none → cluster.nodes ≠ []

/-- The key of the command belongs to the node itself, if there is a cluster. -/
def Owned (dispatcher : Dispatcher) (command : Command) : Prop :=
  ∀ cluster key, dispatcher.cluster = some cluster → command.key = some key →
    cluster.ownerForKey key = .ok cluster.currentNode

/-- Routing raises if there is no node. -/
theorem route_error_unrouted {command : Command} (h : ¬ dispatcher.Routed command) :
    ∃ error, dispatcher.routeError command = .error error := by
  simp only [Routed, not_forall, not_not] at h
  obtain ⟨cluster, hcluster, hkey, hnodes⟩ := h
  obtain ⟨key, hkey⟩ := Option.ne_none_iff_exists'.mp hkey
  refine ⟨.valueError "At least one node is required for routing", ?_⟩
  simp only [routeError, hcluster, hkey, ClusterCoordinator.movedError,
    ClusterCoordinator.ownerForKey, ClusterRouter.route, dif_pos hnodes]
  rfl

/-- A command of the node itself passes. -/
theorem route_error_owned {command : Command} (h : dispatcher.Owned command) :
    dispatcher.routeError command = .ok none := by
  unfold routeError
  split
  · rfl
  · next cluster hcluster =>
      split
      · rfl
      · next key hkey =>
          simp only [ClusterCoordinator.movedError, h cluster key hcluster hkey, bind,
            Except.bind, if_true]
          rfl

/-- A command of another node is refused with a message of one line. -/
theorem route_error_moved {command : Command} (hplain : dispatcher.PlainHosts)
    (hrouted : dispatcher.Routed command) (h : ¬ dispatcher.Owned command) :
    ∃ message, dispatcher.routeError command = .ok (some message) ∧ OneLine message := by
  simp only [Owned, not_forall] at h
  obtain ⟨cluster, key, hcluster, hkey, howner⟩ := h
  have hnodes := hrouted cluster hcluster (by simp [hkey])
  -- the owner, and the texts of the slot and of its port
  obtain ⟨owner, hfound, hmem⟩ : ∃ owner, cluster.ownerForKey key = .ok owner ∧
      owner ∈ cluster.nodes := by
    refine ⟨_, dif_neg hnodes, List.get_mem _ _⟩
  have hother : owner ≠ cluster.currentNode := by
    rintro rfl
    exact howner hfound
  obtain ⟨slotText, hslot⟩ := cluster.router.slot_text key
  obtain ⟨portText, hport⟩ := PyText.int_text_ok_iff.mpr owner.printable
  refine ⟨s!"MOVED {slotText} {owner.host}:{portText}", ?_, ?_⟩
  · simp only [routeError, hcluster, hkey, ClusterCoordinator.movedError, hfound, bind,
      Except.bind, if_neg hother, hslot, hport]
    rfl
  · refine OneLine.append (OneLine.append (OneLine.append (OneLine.append (OneLine.append ?_ ?_) ?_)
      ?_) ?_) ?_
    · decide
    · exact one_line_int hslot
    · decide
    · exact hplain cluster hcluster owner hmem
    · decide
    · exact one_line_int hport

end Routing

variable [PyHash String]

open Py World RespEncoder

variable (dispatcher : Dispatcher) {args : List String}

/-- A state that is sound, and a response that can be encoded. -/
def Answered (response : Response) (world : World String) : Prop :=
  world.Sound ∧ Encodable response

/-- A state that is sound, and an exception that becomes a reply. -/
def Refused (error : PyError) (world : World String) : Prop :=
  world.Sound ∧ ∃ message, error = .valueError message ∧ OneLine message

/-- The wrong number of arguments is refused. -/
theorem triple_arity {name : String} (hname : OneLine (PyText.lower name)) {expected : Nat}
    {P : World String → Prop} (hP : ∀ world, P world → world.Sound) :
    Triple P (ensureArity name args expected) (fun _ world => P world ∧ args.length = expected)
      Refused := by
  refine .ite ?_ ?_
  · intro hlength
    refine .raise fun world h => ⟨hP world h, _, rfl, ?_⟩
    exact ((show OneLine "wrong number of arguments for '" by decide).append hname).append
      (by decide)
  · intro hlength
    exact .pure fun world h => ⟨h, not_not.mp hlength⟩

theorem triple_record_write {command : String} {rest : List String}
    (h : ∀ manager : PersistenceManager String, Triple World.Sound
      (manager.recordWrite command rest) (fun _ world => world.Sound) fun _ _ => False) :
    Triple World.Sound (dispatcher.recordWrite command rest) (fun _ world => world.Sound)
      Refused := by
  obtain ⟨persistence, cluster⟩ := dispatcher
  cases persistence with
  | none => exact .pure fun _ h => h
  | some manager => exact (h manager).safe

theorem triple_ping :
    Triple World.Sound (dispatchPing args) Answered Refused := by
  refine .bind (triple_arity (by decide) fun _ h => h) fun _ => ?_
  exact .pure fun _ h => ⟨h.1, _, rfl⟩

theorem triple_set (hargs : ∀ arg ∈ args, Printable arg) :
    Triple World.Sound (dispatcher.dispatchSet args) Answered Refused := by
  refine .bind (triple_arity (by decide) fun _ h => h) fun _ => ?_
  intro world h
  obtain ⟨hsound, hlength⟩ := h
  obtain ⟨key, value, rfl⟩ := List.length_eq_two.mp hlength
  have hlocal : InMemoryStore.Local key (InMemoryStore.set key value none)
      (Cell.set value none) := InMemoryStore.local_set value none
  have hset := triple_storage_sound (Q := fun _ => True) hlocal
    ((Cell.triple_set (P := Printable) (hargs value (by simp))).weaken fun _ _ h => ⟨h, trivial⟩)
  refine Triple.bind hset.safe (fun _ => ?_) world hsound
  refine .bind (R := fun _ world => world.Sound) ?_ fun _ => ?_
  · exact (triple_record_write dispatcher fun manager => manager.triple_record_set _).strengthen
      fun _ h => h.1
  · exact .pure fun _ h => ⟨h, _, rfl⟩

theorem triple_get :
    Triple World.Sound (dispatchGet args) Answered Refused := by
  refine .bind (triple_arity (by decide) fun _ h => h) fun _ => ?_
  refine .bind ((triple_storage_sound InMemoryStore.local_get Cell.triple_get).safe.strengthen
    fun _ h => h.1) fun found => ?_
  exact .pure fun _ h => ⟨h.1, encodable_bulk_string h.2⟩

theorem triple_del :
    Triple World.Sound (dispatcher.dispatchDel args) Answered Refused := by
  refine .bind (triple_arity (by decide) fun _ h => h) fun _ => ?_
  refine .bind ((triple_storage_sound InMemoryStore.local_delete
    Cell.triple_delete).safe.strengthen fun _ h => h.1) fun deleted => ?_
  refine .ite ?_ ?_
  · intro hdeleted world h
    have hrecord := triple_record_write dispatcher fun manager =>
      manager.triple_record_del [arg args 0]
    refine Triple.bind hrecord (fun _ => ?_) world h.1
    exact .pure fun _ hsound => ⟨hsound, encodable_bit h.2⟩
  · intro hdeleted
    exact .pure fun _ h => ⟨h.1, encodable_bit h.2⟩

theorem triple_exists :
    Triple World.Sound (dispatchExists args) Answered Refused := by
  refine .bind (triple_arity (by decide) fun _ h => h) fun _ => ?_
  refine .bind ((triple_storage_sound InMemoryStore.local_exists
    Cell.triple_exists).safe.strengthen fun _ h => h.1) fun found => ?_
  exact .pure fun _ h => ⟨h.1, encodable_bit h.2⟩

theorem triple_ttl :
    Triple World.Sound (dispatchTtl args) Answered Refused := by
  refine .bind (triple_arity (by decide) fun _ h => h) fun _ => ?_
  refine .bind ((triple_storage_sound InMemoryStore.local_store_ttl
    Cell.triple_ttl).safe.strengthen fun _ h => h.1) fun left => ?_
  refine .pure fun _ h => ?_
  obtain ⟨hsound, text, htext⟩ := h
  exact ⟨hsound, encodable_integer htext⟩

theorem triple_save :
    Triple World.Sound (dispatcher.dispatchSave args) Answered Refused := by
  refine .bind (triple_arity (by decide) fun _ h => h) fun _ => ?_
  obtain ⟨persistence, cluster⟩ := dispatcher
  cases persistence with
  | none => exact .pure fun _ h => ⟨h.1, encodable_error_iff.mpr (by decide)⟩
  | some manager =>
      refine .bind (manager.triple_snapshot.safe.strengthen fun _ h => h.1) fun _ => ?_
      exact .pure fun _ h => ⟨h, _, rfl⟩

/-- The number of seconds that an `EXPIRE` gives to a live key is small enough for a float. -/
def Fits (args : List String) (world : World String) : Prop :=
  ∀ key text seconds, args = [key, text] → PyText.parseInt text = some seconds →
    (world.storage.cell key).Live → seconds < PyFloat.intLimit

theorem triple_expire :
    Triple (fun world => world.Sound ∧ Fits args world) (dispatcher.dispatchExpire args)
      Answered Refused := by
  refine .bind (triple_arity (by decide) fun _ h => h.1) fun _ => ?_
  cases hparse : PyText.parseInt (arg args 1) with
  | none => exact .raise fun _ h => ⟨h.1.1, _, rfl, by decide⟩
  | some seconds =>
      refine .ite (fun _ => .raise fun _ h => ⟨h.1.1, _, rfl, by decide⟩) fun hsign => ?_
      intro world h
      obtain ⟨⟨hsound, hfits⟩, hlength⟩ := h
      obtain ⟨key, text, rfl⟩ := List.length_eq_two.mp hlength
      have hcell := Cell.triple_expire (P := Printable) (by omega)
        (world.storage.cell key).Live (hfits key text seconds rfl hparse)
      have hlocal : InMemoryStore.Local (V := String) key (InMemoryStore.expire key seconds)
          (Cell.expire seconds) := InMemoryStore.local_expire seconds
      have hexpire := triple_storage (E := fun _ => False) hlocal
        (hcell.weaken_error fun _ _ h => h.elim)
      refine Triple.bind (hexpire.weaken_error fun _ _ h => h.2.elim) (fun updated => ?_) world
        ⟨hsound, hsound.slots key, Iff.rfl⟩
      refine .ite ?_ ?_
      · intro hupdated after h
        have hrecord := triple_record_write dispatcher fun manager =>
          manager.triple_record_expire key [text]
        refine Triple.bind hrecord (fun _ => ?_) after h.1
        exact .pure fun _ hafter => ⟨hafter, encodable_bit h.2⟩
      · intro hupdated
        exact .pure fun _ h => ⟨h.1, encodable_bit h.2⟩

/-- An `EXPIRE` of a live key by too many seconds raises what is no `ValueError`. -/
theorem triple_expire_overflow :
    Triple (fun world => world.Sound ∧ ¬ Fits args world) (dispatcher.dispatchExpire args)
      (fun _ _ => False)
      fun error world => world.Sound ∧ ∃ message, error = .overflowError message := by
  intro world h
  obtain ⟨hsound, hlarge⟩ := h
  simp only [Fits, not_forall, not_lt] at hlarge
  obtain ⟨key, text, seconds, rfl, hparse, hlive, hlarge⟩ := hlarge
  have hpos : 0 < seconds := by
    have hlimit : (0 : Int) < PyFloat.intLimit := PyFloat.lt_int_limit (by decide)
    omega
  have hcell := Cell.triple_expire_overflow (P := Printable) hpos hlarge
  have hlocal : InMemoryStore.Local (V := String) key (InMemoryStore.expire key seconds)
      (Cell.expire seconds) := InMemoryStore.local_expire seconds
  have hexpire := triple_storage (Q := fun _ => False) hlocal
    (hcell.consequence (fun _ h => h) (fun _ _ h => h.elim) fun _ _ h => ⟨h.2, h.1⟩)
  have hraises := hexpire.weaken fun _ _ h => h.2
  obtain ⟨error, after, hrun, hsound', hoverflow⟩ :=
    hraises.raises (show world.Sound ∧ _ from ⟨hsound, hsound.slots key, iff_true_intro hlive⟩)
  have hraise : dispatcher.dispatchExpire [key, text] world = (.error error, after) := by
    have hsign : ¬ seconds ≤ 0 := by omega
    have harg : arg [key, text] 1 = text := rfl
    have harity : ensureArity "EXPIRE" [key, text] 2 world = (.ok (), world) := rfl
    unfold dispatchExpire
    rw [bind_ok harity, harg, hparse]
    simp only [if_neg hsign]
    exact bind_error hrun
  rw [hraise]
  exact ⟨hsound', hoverflow⟩

/-- The names that have a handler. -/
def commandNames : List String :=
  ["PING", "SET", "GET", "DEL", "EXISTS", "EXPIRE", "TTL", "SAVE"]

theorem handler_none_iff {name : String} :
    dispatcher.handler name args = none ↔ name ∉ commandNames := by
  refine ⟨?_, ?_⟩
  · intro h hname
    simp only [commandNames, List.mem_cons, List.not_mem_nil, or_false] at hname
    rcases hname with rfl | rfl | rfl | rfl | rfl | rfl | rfl | rfl <;> cases h
  · intro hname
    simp only [commandNames, List.mem_cons, List.not_mem_nil, or_false, not_or] at hname
    simp only [handler, hname, if_false]

/-- Before a command: the state is sound, and the seconds of an `EXPIRE` fit. -/
def Prepared (command : Command) (world : World String) : Prop :=
  world.Sound ∧ (command.normalizedName = "EXPIRE" → Fits command.args world)

/-- What a handler raises on a prepared state becomes a reply. -/
theorem triple_handler {command : Command} {handler : Py (World String) Response}
    (hargs : ∀ arg ∈ command.args, Printable arg)
    (h : dispatcher.handler command.normalizedName command.args = some handler) :
    Triple (Prepared command) handler Answered Refused := by
  have hsafe : ∀ {action : Py (World String) Response},
      Triple World.Sound action Answered Refused →
      Triple (Prepared command) action Answered Refused :=
    fun haction => haction.strengthen fun _ h => h.1
  refine handler_cases (motive := fun handler => Triple (Prepared command) handler Answered Refused)
    h ?_ ?_ ?_ ?_ ?_ ?_ ?_ ?_
  · exact fun _ => hsafe triple_ping
  · exact fun _ => hsafe (triple_set dispatcher hargs)
  · exact fun _ => hsafe triple_get
  · exact fun _ => hsafe (triple_del dispatcher)
  · exact fun _ => hsafe triple_exists
  · intro hexpire
    exact (triple_expire dispatcher).strengthen fun _ h => ⟨h.1, h.2 hexpire⟩
  · exact fun _ => hsafe triple_ttl
  · exact fun _ => hsafe (triple_save dispatcher)

/-- A command of a known name, or of an unknown name of one line, gets a reply. -/
theorem execute_answered {command : Command} {world : World String}
    (hargs : ∀ arg ∈ command.args, Printable arg)
    (hname : command.normalizedName ∉ commandNames → OneLine command.name)
    (h : Prepared command world) :
    ∃ response after, dispatcher.execute command world = (.ok response, after) ∧
      Answered response after := by
  refine Triple.returns (P := Prepared command) ?_ h
  unfold execute
  split
  · next handler hhandler =>
      refine .exceptValueError (V := fun message world => world.Sound ∧ OneLine message) ?_ ?_
      · refine (triple_handler dispatcher hargs hhandler).weaken_error ?_
        rintro error world ⟨hsound, message, rfl, hline⟩
        exact ⟨hsound, hline⟩
      · intro message
        exact .pure fun _ h => ⟨h.1, encodable_error_iff.mpr h.2⟩
  · next hhandler =>
      refine .pure fun _ h => ⟨h.1, encodable_error_iff.mpr ?_⟩
      exact ((show OneLine "unknown command '" by decide).append
        (hname ((handler_none_iff dispatcher).mp hhandler))).append (by decide)

/-- An `EXPIRE` that does not fit raises. -/
theorem execute_overflow {command : Command} {world : World String}
    (hexpire : command.normalizedName = "EXPIRE") (h : world.Sound)
    (hlarge : ¬ Fits command.args world) :
    ∃ error after, dispatcher.execute command world = (.error error, after) ∧ after.Sound := by
  have hhandler : dispatcher.handler command.normalizedName command.args =
      some (dispatcher.dispatchExpire command.args) := by
    rw [hexpire]
    rfl
  refine Triple.raises (P := fun world => world.Sound ∧ ¬ Fits command.args world)
    (E := fun _ world => world.Sound) ?_ ⟨h, hlarge⟩
  unfold execute
  simp only [hhandler]
  refine .exceptValueError (V := fun _ _ => False)
    ((triple_expire_overflow dispatcher).weaken_error ?_) fun message _ h => h.elim
  rintro error world ⟨hsound, message, rfl⟩
  exact hsound

/-- The reply to an unknown name of several lines cannot be encoded. -/
theorem execute_unnamed {command : Command} (h : command.normalizedName ∉ commandNames)
    (hname : ¬ OneLine command.name) (world : World String) :
    ∃ response, dispatcher.execute command world = (.ok response, world) ∧
      ¬ Encodable response := by
  refine ⟨Response.ofError s!"unknown command '{command.name}'", ?_, ?_⟩
  · unfold execute
    simp only [(handler_none_iff dispatcher).mpr h]
    rfl
  · rw [encodable_error_iff]
    intro hline
    refine hname ?_
    simp only [OneLine, String.toList_append, List.mem_append, not_or] at hline
    exact ⟨hline.1.1.2, hline.2.1.2⟩

variable {dispatcher}

/-- Whatever the routing says, a parsed command leaves a sound state. -/
theorem sound_dispatch {command : Command} {world : World String} (h : world.Sound)
    (hargs : ∀ arg ∈ command.args, Printable arg) :
    (dispatcher.dispatch command world).2.Sound := by
  have hexecute : (dispatcher.execute command world).2.Sound := by
    by_cases hnamed : command.normalizedName ∈ commandNames ∨ OneLine command.name
    · by_cases hfits : command.normalizedName = "EXPIRE" → Fits command.args world
      · obtain ⟨response, after, hrun, hafter⟩ :=
          execute_answered dispatcher hargs hnamed.resolve_left ⟨h, hfits⟩
        rw [hrun]
        exact hafter.1
      · obtain ⟨hexpire, hlarge⟩ := Classical.not_imp.mp hfits
        obtain ⟨error, after, hrun, hafter⟩ :=
          execute_overflow dispatcher hexpire h hlarge
        rw [hrun]
        exact hafter
    · obtain ⟨hunknown, hname⟩ := not_or.mp hnamed
      obtain ⟨response, hrun, -⟩ := execute_unnamed dispatcher hunknown hname world
      rw [hrun]
      exact h
  cases hroute : dispatcher.routeError command with
  | error error => simpa only [dispatch, hroute, bind_apply, of_except_apply] using h
  | ok refusal =>
      cases refusal with
      | none =>
          rw [dispatch_local hroute]
          exact hexecute
      | some message =>
          rw [dispatch_refused hroute]
          exact h

/-- A state of a running server: it starts with an empty store, and serves requests. -/
inductive Reachable (dispatcher : Dispatcher) : World String → Prop where
  | start (nowFn : Stream' Reading) (files : Files) :
      Reachable dispatcher ⟨InMemoryStore.init nowFn, Disk.reliable files⟩
  | step {world : World String} {raw : Bytes} {command : Command} {consumed : Nat}
      (h : Reachable dispatcher world) (hparse : RespParser.parseOne raw = .ok (command, consumed)) :
      Reachable dispatcher (dispatcher.dispatch command world).2

/-- Every state of a running server is sound. -/
theorem sound_reachable {world : World String} (h : Reachable dispatcher world) :
    world.Sound := by
  induction h with
  | start nowFn files =>
      refine ⟨fun key => ?_, rfl⟩
      have habsent : (InMemoryStore.init nowFn : InMemoryStore String String).slot key =
          Slot.absent := by
        simp [InMemoryStore.init, InMemoryStore.slot, Slot.absent]
      exact habsent ▸ Cell.sound_absent
  | step h hparse ih => exact sound_dispatch ih (RespParser.parse_one_printable hparse)

/-- The client gets a reply: the dispatcher returns a response, which can be encoded. -/
def RepliesTo (dispatcher : Dispatcher) (command : Command) (world : World String) : Prop :=
  ∃ response after reply, dispatcher.dispatch command world = (.ok response, after) ∧
    RespEncoder.encode response = .ok reply

/-- What a command needs for a reply. -/
structure Answerable (dispatcher : Dispatcher) (command : Command) (world : World String) :
    Prop where
  routed : dispatcher.Routed command
  named : dispatcher.Owned command → command.normalizedName ∉ commandNames →
    OneLine command.name
  fits : dispatcher.Owned command → command.normalizedName = "EXPIRE" →
    Fits command.args world

/-- A parsed command gets a reply exactly if it is answerable. -/
theorem every_request_answered_iff {dispatcher : Dispatcher} {raw : Bytes} {command : Command}
    {consumed : Nat} {world : World String} (hplain : dispatcher.PlainHosts)
    (hreachable : Reachable dispatcher world)
    (hparse : RespParser.parseOne raw = .ok (command, consumed)) :
    dispatcher.RepliesTo command world ↔ dispatcher.Answerable command world := by
  have hsound := sound_reachable hreachable
  have hargs := RespParser.parse_one_printable hparse
  by_cases hrouted : dispatcher.Routed command
  · by_cases howned : dispatcher.Owned command
    · have hdispatch := dispatch_local (route_error_owned howned)
      unfold RepliesTo
      rw [hdispatch]
      refine ⟨?_, ?_⟩
      · -- there is a reply: neither defect of the handlers was reached
        rintro ⟨response, after, reply, hrun, hreply⟩
        refine ⟨hrouted, fun _ hunknown => ?_, fun _ hexpire => ?_⟩
        · by_contra hname
          obtain ⟨other, hother, hencodable⟩ :=
            execute_unnamed dispatcher hunknown hname world
          rw [hother] at hrun
          cases hrun
          exact hencodable ⟨reply, hreply⟩
        · by_contra hlarge
          obtain ⟨error, other, hother, -⟩ :=
            execute_overflow dispatcher hexpire hsound hlarge
          rw [hother] at hrun
          cases hrun
      · intro h
        obtain ⟨response, after, hrun, -, reply, hreply⟩ :=
          execute_answered dispatcher hargs (h.named howned)
            ⟨hsound, h.fits howned⟩
        exact ⟨response, after, reply, hrun, hreply⟩
    · -- another node owns the key, and the redirection is one line
      obtain ⟨message, hroute, hline⟩ := route_error_moved hplain hrouted howned
      obtain ⟨reply, hreply⟩ := RespEncoder.encodable_error_iff.mpr hline
      refine iff_of_true ⟨_, _, reply, dispatch_refused hroute world, hreply⟩ ?_
      exact ⟨hrouted, fun h => absurd h howned, fun h => absurd h howned⟩
  · -- there is no node for the key: `route` raises before there is a handler
    obtain ⟨error, hroute⟩ := route_error_unrouted hrouted
    refine iff_of_false ?_ fun h => hrouted h.routed
    rintro ⟨response, after, reply, hrun, -⟩
    simp only [dispatch, hroute, bind_apply, of_except_apply] at hrun
    cases hrun

omit [PyHash String]

/-- On the second of two nodes, which the key of a session belongs to: the session is opened and
given a minute, and then the request for more time is answered, and so is an unknown command. -/
theorem session_requests_answered :
    let _ : PyHash String := ⟨fun key => key.length⟩
    let first : Node := ⟨"node-1", "10.0.0.1", 6379, by decide⟩
    let second : Node := ⟨"node-2", "10.0.0.2", 6380, by decide⟩
    let router : ClusterRouter := ⟨fun _ =>
      28599856298746089607897076457048825721377053682330775539991525306272321474933⟩
    let dispatcher : Dispatcher := ⟨some ⟨JsonText.codec⟩, some ⟨second, [first, second], router⟩⟩
    let clock : Stream' Reading := fun n => Reading.atSecond (Fin.ofNat _ n)
    let opened := (dispatcher.dispatch ⟨"SET", ["session", "open"]⟩
      ⟨InMemoryStore.init clock, Disk.reliable Files.empty⟩).2
    let expiring := (dispatcher.dispatch ⟨"EXPIRE", ["session", "60"]⟩ opened).2
    dispatcher.RepliesTo ⟨"EXPIRE", ["session", "100"]⟩ expiring ∧
      dispatcher.RepliesTo ⟨"HELLO", []⟩ expiring := by
  intro _ first second router dispatcher clock opened expiring
  have hset : RespParser.parseOne
      (Bytes.ofText "*3\r\n$3\r\nSET\r\n$7\r\nsession\r\n$4\r\nopen\r\n") =
        .ok (⟨"SET", ["session", "open"]⟩, 36) := by decide +kernel
  have hexpire : RespParser.parseOne
      (Bytes.ofText "*3\r\n$6\r\nEXPIRE\r\n$7\r\nsession\r\n$2\r\n60\r\n") =
        .ok (⟨"EXPIRE", ["session", "60"]⟩, 37) := by decide +kernel
  have hmore : RespParser.parseOne
      (Bytes.ofText "*3\r\n$6\r\nEXPIRE\r\n$7\r\nsession\r\n$3\r\n100\r\n") =
        .ok (⟨"EXPIRE", ["session", "100"]⟩, 38) := by decide +kernel
  have hhello : RespParser.parseOne (Bytes.ofText "*1\r\n$5\r\nHELLO\r\n") =
      .ok (⟨"HELLO", []⟩, 15) := by decide +kernel
  have hplain : dispatcher.PlainHosts := by
    rintro cluster hcluster node hnode
    obtain rfl := Option.some.inj hcluster
    simp only [List.mem_cons, List.not_mem_nil, or_false] at hnode
    rcases hnode with rfl | rfl <;> decide
  have hrouted : ∀ command, dispatcher.Routed command := by
    rintro command cluster hcluster -
    obtain rfl := Option.some.inj hcluster
    exact List.cons_ne_nil _ _
  have hreachable : Reachable dispatcher expiring := .step (.step (.start clock _) hset) hexpire
  clear_value expiring
  refine ⟨(every_request_answered_iff hplain hreachable hmore).mpr ⟨hrouted _, ?_, ?_⟩,
    (every_request_answered_iff hplain hreachable hhello).mpr ⟨hrouted _, ?_, ?_⟩⟩
  · exact fun _ hunknown => absurd (by decide) hunknown
  · -- the time fits a float
    rintro - - key text seconds hargs hseconds -
    obtain ⟨rfl, rfl⟩ : "session" = key ∧ "100" = text := by simpa using hargs
    have hhundred : PyText.parseInt "100" = some 100 := by decide +kernel
    rw [hhundred] at hseconds
    cases hseconds
    exact PyFloat.lt_int_limit (by decide)
  · exact fun _ _ => by decide
  · exact fun _ hname => absurd hname (by decide)

/-- The name of an unknown command is quoted in the error reply, which cannot be encoded if the name
is a line break. -/
theorem line_break_unanswered :
    let _ : PyHash String := ⟨fun key => key.length⟩
    let world : World String :=
      ⟨InMemoryStore.init (Stream'.const (Reading.atSecond 0)), Disk.reliable Files.empty⟩
    PlainHosts ⟨none, none⟩ ∧ Reachable ⟨none, none⟩ world ∧
      RespParser.parseOne (Bytes.ofText "*1\r\n$1\r\n\n\r\n") = .ok (⟨"\n", []⟩, 11) ∧
      ¬ RepliesTo ⟨none, none⟩ ⟨"\n", []⟩ world := by
  intro _ world
  refine ⟨?_, .start _ _, by decide, ?_⟩
  · intro cluster hcluster
    cases hcluster
  · rintro ⟨response, after, reply, hrun, hreply⟩
    have hunknown : Command.normalizedName ⟨"\n", []⟩ ∉ commandNames := by decide
    obtain ⟨other, hother, hencodable⟩ :=
      execute_unnamed ⟨none, none⟩ hunknown (by decide) world
    rw [dispatch_local (route_error_owned ?_), hother] at hrun
    · cases hrun
      exact hencodable ⟨reply, hreply⟩
    · intro cluster key hcluster
      cases hcluster

end Dispatcher

end MiniRedis
