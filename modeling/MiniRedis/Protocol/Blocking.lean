import MiniRedis.Protocol.Client

/-!
# A client that waits for its reply

`sock.recv` blocks until there is something to receive. In `recv_resp` over the pieces that have
arrived so far, the end of these pieces is where it blocks, and `Settles` says that what has been
decided before that does not change when more arrives. `recv_resp_waits` is the case of a reply of
which a part has arrived.
-/

namespace MiniRedis

namespace Benchmark

/-- Unless it comes to the end of what has arrived, the result stays the same when more arrives. -/
def Settles {α : Type} (run : Py Socket α) : Prop :=
  ∀ sock more, (run sock).1 ≠ .error .osError →
    run (sock ++ more) = ((run sock).1, (run sock).2 ++ more)

namespace Settles

variable {α β : Type}

theorem pure (a : α) : Settles (Pure.pure a) := fun _ _ _ => rfl

theorem raise (error : PyError) : Settles (Py.raise error : Py Socket α) := fun _ _ _ => rfl

theorem ofExcept (result : Except PyError α) : Settles (Py.ofExcept result) := fun _ _ _ => rfl

theorem bind {first : Py Socket α} {next : α → Py Socket β} (hfirst : Settles first)
    (hnext : ∀ a, Settles (next a)) : Settles (first >>= next) := by
  intro sock more h
  rw [Py.bind_apply] at h
  rw [Py.bind_apply, Py.bind_apply]
  cases hrun : first sock with
  | mk result after =>
      rw [hrun] at h
      cases result with
      | error error =>
          have hsame := hfirst sock more (by
            rw [hrun]
            intro herror
            obtain rfl : error = .osError := Except.error.inj herror
            exact h rfl)
          rw [hrun] at hsame
          rw [hsame]
      | ok a =>
          have hsame := hfirst sock more (by rw [hrun]; simp)
          rw [hrun] at hsame
          rw [hsame]
          exact hnext a after more h

theorem ite {condition : Prop} [Decidable condition] {first second : Py Socket α}
    (hfirst : Settles first) (hsecond : Settles second) :
    Settles (if condition then first else second) := by
  split
  · exact hfirst
  · exact hsecond

end Settles

/-- What is received of a piece that has arrived does not change when more arrives. -/
theorem recv_more (size : Nat) (sock more : Socket) (h : (recv size sock).1 ≠ []) :
    recv size (sock ++ more) = ((recv size sock).1, (recv size sock).2 ++ more) := by
  fun_induction recv size sock with
  | case1 => exact absurd rfl h
  | case2 rest ih => exact ih h
  | case3 byte piece rest => rfl

theorem settles_recv_exact (size : Nat) : Settles (recvExact size) := by
  have hloop : ∀ remaining chunks, Settles (recvExactLoop remaining chunks) := by
    intro remaining chunks sock more h
    fun_induction recvExactLoop remaining chunks sock with
    | case1 chunks sock =>
        rw [recvExactLoop, if_pos rfl]
    | case2 remaining chunks sock hzero after hrecv => exact absurd rfl h
    | case3 remaining chunks sock hzero chunk after hrecv hchunk ih =>
        have hmore := recv_more remaining sock more (by rw [hrecv]; exact hchunk)
        rw [hrecv] at hmore
        rw [recvExactLoop, if_neg hzero, hmore]
        simp only [hchunk, dite_false]
        exact ih h
  exact hloop size []

theorem settles_recv_until_crlf : Settles recvUntilCrlf := by
  have hloop : ∀ chunks, Settles (recvUntilCrlfLoop chunks) := by
    intro chunks sock more h
    fun_induction recvUntilCrlfLoop chunks sock with
    | case1 chunks sock after hrecv => simp [hrecv] at h
    | case2 chunks sock chunk after hrecv hchunk hends =>
        have hmore := recv_more 1 sock more (by rw [hrecv]; exact hchunk)
        rw [hrecv] at hmore
        rw [recvUntilCrlfLoop, hmore, hrecv]
        simp only [hchunk, dite_false]
        rw [if_pos hends, if_pos hends]
    | case3 chunks sock chunk after hrecv hchunk hends ih =>
        have hmore := recv_more 1 sock more (by rw [hrecv]; exact hchunk)
        rw [hrecv] at hmore h
        rw [recvUntilCrlfLoop, hmore, hrecv]
        simp only [hchunk, dite_false] at h ⊢
        rw [if_neg hends] at h ⊢
        rw [if_neg hends]
        exact ih h
  exact hloop []

theorem settles_recv_resp : Settles recvResp := by
  refine .bind (settles_recv_exact 1) fun first => .ite ?_ (.ite ?_ (.raise _))
  · exact .bind settles_recv_until_crlf fun line => .pure _
  · refine .bind settles_recv_until_crlf fun lengthLine => .bind (.ofExcept _) fun length => ?_
    exact .ite (.pure _) (.bind (settles_recv_exact _) fun data => .pure _)

/-- As long as a part of a reply is missing, `recv_resp` waits; when all of it has arrived, it
returns the reply. -/
theorem recv_resp_waits {response : Response} {reply : Bytes}
    (h : RespEncoder.encode response = .ok reply) {sock : Socket} {missing : Bytes}
    (hsock : sock.flatten ++ missing = reply) :
    (missing ≠ [] → (recvResp sock).1 = .error .osError) ∧
      (missing = [] → ∃ after, recvResp sock = (.ok reply, after) ∧ after.flatten = []) := by
  have hwhole : (sock ++ [missing]).flatten = reply ++ [] := by
    rw [List.flatten_append, List.flatten_singleton, hsock, List.append_nil]
  refine ⟨fun hmissing => ?_, fun hmissing => ?_⟩
  · by_contra hdecided
    obtain ⟨last, hrun, hlast⟩ := recv_resp_encoded h (sock ++ [missing]) hwhole
    rw [settles_recv_resp sock [missing] hdecided] at hrun
    -- the missing part would be left over
    obtain ⟨-, hafter⟩ := Prod.mk.inj hrun
    rw [← hafter, List.flatten_append, List.flatten_singleton] at hlast
    exact hmissing (List.append_eq_nil_iff.mp hlast).2
  · rw [hmissing, List.append_nil] at hsock
    exact recv_resp_encoded h sock (by rw [hsock, List.append_nil])

end Benchmark

end MiniRedis
