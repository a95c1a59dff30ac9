import Mathlib.Data.List.Basic
import Mathlib.Tactic.Common

/-!
# Incremental parsing of a stream

A parser looks at a buffer and answers with an item and the number of elements it takes,
asks for more, or fails. It is stable when an item or a failure stays the same under more
data. Then the items at the front of a stream do not depend on how the stream arrives:
`split_append_wait` splits a stream in two deliveries, the second of which starts with what
the first has left.
-/

namespace Incremental

/-- What a parser says about a buffer. -/
inductive Verdict (α ε : Type) where
  | item (a : α) (consumed : Nat)
  | wait
  | fail (error : ε)

/-- A parser whose items and failures stay the same under more data, and whose items depend on
the data they take only. -/
structure StableParser (β α ε : Type) where
  parse : List β → Verdict α ε
  bounds : ∀ {raw a consumed}, parse raw = .item a consumed →
    0 < consumed ∧ consumed ≤ raw.length
  item_append : ∀ {raw a consumed}, parse raw = .item a consumed →
    ∀ more, parse (raw ++ more) = .item a consumed
  item_take : ∀ {raw a consumed}, parse raw = .item a consumed →
    parse (raw.take consumed) = .item a consumed
  fail_append : ∀ {raw error}, parse raw = .fail error → ∀ more, parse (raw ++ more) = .fail error

/-- The items at the front of a stream, what is left, and the failure if one stops the parser. -/
structure Split (β α ε : Type) where
  items : List α
  rest : List β
  error : Option ε

namespace StableParser

variable {β α ε : Type}

/-- Take items off the front of a buffer until the parser asks for more or fails. -/
def split (parser : StableParser β α ε) (raw : List β) : Split β α ε :=
  match _hparse : parser.parse raw with
  | .wait => ⟨[], raw, none⟩
  | .fail error => ⟨[], raw, some error⟩
  | .item a consumed =>
      let tail := parser.split (raw.drop consumed)
      ⟨a :: tail.items, tail.rest, tail.error⟩
termination_by raw.length
decreasing_by
  have hbounds := parser.bounds _hparse
  rw [List.length_drop]
  omega

variable {parser : StableParser β α ε} {raw : List β}

theorem split_wait (h : parser.parse raw = .wait) : parser.split raw = ⟨[], raw, none⟩ := by
  rw [split]
  split <;> simp_all

theorem split_fail {error : ε} (h : parser.parse raw = .fail error) :
    parser.split raw = ⟨[], raw, some error⟩ := by
  rw [split]
  split <;> simp_all

theorem split_item {a : α} {consumed : Nat} (h : parser.parse raw = .item a consumed) :
    parser.split raw =
      ⟨a :: (parser.split (raw.drop consumed)).items, (parser.split (raw.drop consumed)).rest,
        (parser.split (raw.drop consumed)).error⟩ := by
  rw [split]
  split <;> simp_all

/-- Induction on the items at the front of a buffer. -/
theorem split_induction (parser : StableParser β α ε) {motive : List β → Prop} (raw : List β)
    (wait : ∀ raw, parser.parse raw = .wait → motive raw)
    (fail : ∀ raw error, parser.parse raw = .fail error → motive raw)
    (item : ∀ raw a consumed, parser.parse raw = .item a consumed →
      motive (raw.drop consumed) → motive raw) : motive raw := by
  induction hlength : raw.length using Nat.strongRecOn generalizing raw with
  | _ length ih =>
      cases h : parser.parse raw with
      | wait => exact wait raw h
      | fail error => exact fail raw error h
      | item a consumed =>
          have hbounds := parser.bounds h
          refine item raw a consumed h (ih _ ?_ (raw.drop consumed) rfl)
          rw [List.length_drop]
          omega

/-- What is left is where the parser asks for more or fails. -/
theorem parse_rest (parser : StableParser β α ε) (raw : List β) :
    parser.parse (parser.split raw).rest =
      match (parser.split raw).error with
      | none => .wait
      | some error => .fail error := by
  induction raw using split_induction parser with
  | wait raw h => rw [split_wait h]; exact h
  | fail raw error h => rw [split_fail h]; exact h
  | item raw a consumed h ih =>
      rw [split_item h]
      exact ih

/-- The items of a stream are taken off its front, whatever stands behind it. -/
theorem exists_front (parser : StableParser β α ε) (raw : List β) :
    ∃ front, raw = front ++ (parser.split raw).rest ∧
      ∀ other, parser.split (front ++ other) =
        ⟨(parser.split raw).items ++ (parser.split other).items, (parser.split other).rest,
          (parser.split other).error⟩ := by
  induction raw using split_induction parser with
  | wait raw h =>
      rw [split_wait h]
      exact ⟨[], rfl, fun other => rfl⟩
  | fail raw error h =>
      rw [split_fail h]
      exact ⟨[], rfl, fun other => rfl⟩
  | item raw a consumed h ih =>
      obtain ⟨front, hfront, hother⟩ := ih
      refine ⟨raw.take consumed ++ front, ?_, fun other => ?_⟩
      · rw [split_item h, List.append_assoc, ← hfront, List.take_append_drop]
      · have hlength : (raw.take consumed).length = consumed := by
          rw [List.length_take]
          exact Nat.min_eq_left (parser.bounds h).2
        have hitem := parser.item_append (parser.item_take h) (front ++ other)
        have hdrop : (raw.take consumed ++ (front ++ other)).drop consumed = front ++ other := by
          rw [List.drop_append_of_le_length (Nat.le_of_eq hlength.symm),
            List.drop_eq_nil_of_le (Nat.le_of_eq hlength), List.nil_append]
        rw [List.append_assoc, split_item hitem, hdrop, hother, split_item h]
        rfl

/-- A failure stops the parser however much more arrives. -/
theorem split_append_fail {error : ε} (h : (parser.split raw).error = some error)
    (more : List β) :
    parser.split (raw ++ more) =
      ⟨(parser.split raw).items, (parser.split raw).rest ++ more, some error⟩ := by
  induction raw using split_induction parser with
  | wait raw hparse =>
      rw [split_wait hparse] at h
      cases h
  | fail raw other hparse =>
      rw [split_fail hparse] at h ⊢
      cases h
      rw [split_fail (parser.fail_append hparse more)]
  | item raw a consumed hparse ih =>
      have hbounds := parser.bounds hparse
      rw [split_item hparse] at h ⊢
      rw [split_item (parser.item_append hparse more),
        List.drop_append_of_le_length hbounds.2, ih h]

/-- A delivery after which the parser waits: the next one starts with what is left. -/
theorem split_append_wait (h : (parser.split raw).error = none) (more : List β) :
    parser.split (raw ++ more) =
      ⟨(parser.split raw).items ++ (parser.split ((parser.split raw).rest ++ more)).items,
        (parser.split ((parser.split raw).rest ++ more)).rest,
        (parser.split ((parser.split raw).rest ++ more)).error⟩ := by
  induction raw using split_induction parser with
  | wait raw hparse => rw [split_wait hparse]; rfl
  | fail raw error hparse =>
      rw [split_fail hparse] at h
      cases h
  | item raw a consumed hparse ih =>
      have hbounds := parser.bounds hparse
      rw [split_item hparse] at h ⊢
      rw [split_item (parser.item_append hparse more),
        List.drop_append_of_le_length hbounds.2, ih h]
      rfl

/-- A part of what an item takes is not enough for a verdict. -/
theorem wait_of_short {a : α} {consumed : Nat} {front more : List β}
    (h : parser.parse (front ++ more) = .item a consumed) (hshort : front.length < consumed) :
    parser.parse front = .wait := by
  cases hparse : parser.parse front with
  | wait => rfl
  | fail error =>
      rw [parser.fail_append hparse more] at h
      cases h
  | item other taken =>
      have hbounds := parser.bounds hparse
      rw [parser.item_append hparse more] at h
      cases h
      omega

end StableParser

section Encoded

variable {β α ε γ : Type} (encoding : γ → List β)

/-- The encodings of a list of messages, one behind the other. -/
def stream (messages : List γ) : List β := (messages.map encoding).flatten

/-- The messages whose encodings lie wholly within the first `count` elements of their stream. -/
def contained : List γ → Nat → List γ
  | [], _ => []
  | message :: rest, count =>
      if (encoding message).length ≤ count then
        message :: contained rest (count - (encoding message).length)
      else []

variable {encoding}

/-- A parser that reads each message back takes the contained messages off a part of the stream,
and waits with the unfinished tail. -/
theorem split_stream {parser : StableParser β α ε} {item : γ → α}
    (hempty : parser.parse [] = .wait)
    (hread : ∀ message tail, parser.parse (encoding message ++ tail) =
      .item (item message) (encoding message).length)
    (messages : List γ) {delivered : List β} (h : delivered <+: stream encoding messages) :
    parser.split delivered =
      ⟨(contained encoding messages delivered.length).map item,
        delivered.drop (stream encoding (contained encoding messages delivered.length)).length,
        none⟩ ∧
    stream encoding (contained encoding messages delivered.length) <+: delivered := by
  induction messages generalizing delivered with
  | nil =>
      obtain rfl : delivered = [] := List.prefix_nil.mp h
      exact ⟨StableParser.split_wait hempty, List.prefix_refl _⟩
  | cons message rest ih =>
      have hstream : stream encoding (message :: rest) =
          encoding message ++ stream encoding rest := rfl
      by_cases hmessage : (encoding message).length ≤ delivered.length
      · -- the first message is complete, and the rest of the delivery is a part of the rest
        obtain ⟨more, rfl⟩ : encoding message <+: delivered :=
          List.prefix_of_prefix_length_le ⟨_, hstream.symm⟩ h hmessage
        have hmore : more <+: stream encoding rest := by
          rw [hstream] at h
          exact (List.prefix_append_right_inj _).mp h
        obtain ⟨hsplit, hfront⟩ := ih hmore
        have hcontained : contained encoding (message :: rest) (encoding message ++ more).length =
            message :: contained encoding rest more.length := by
          rw [contained, if_pos hmessage, List.length_append, Nat.add_sub_cancel_left]
        have hcount : (stream encoding (message :: contained encoding rest more.length)).length =
            (encoding message).length +
              (stream encoding (contained encoding rest more.length)).length :=
          List.length_append
        rw [hcontained]
        refine ⟨?_, ?_⟩
        · rw [StableParser.split_item (hread message more), List.drop_left, hsplit, hcount,
            List.drop_append, List.drop_eq_nil_of_le (Nat.le_add_right _ _), List.nil_append,
            Nat.add_sub_cancel_left]
          rfl
        · exact (List.prefix_append_right_inj (encoding message)).mpr hfront
      · have hcontained : contained encoding (message :: rest) delivered.length = [] := by
          rw [contained, if_neg hmessage]
        obtain ⟨tail, htail⟩ := h
        have hitem := hread message (stream encoding rest)
        rw [← hstream, ← htail] at hitem
        rw [hcontained, StableParser.split_wait
          (StableParser.wait_of_short hitem (Nat.lt_of_not_le hmessage))]
        exact ⟨rfl, List.nil_prefix⟩

end Encoded

end Incremental
