import Spook.Pmsg.Space
import Spook.Tcp.Units

set_option relaxedAutoImplicit false
set_option autoImplicit false

/-!
# Replies of the RTSP handlers

`rtsp_create_reply` fills a message of 512 bytes with the words of the status line and then with
copies of the `CSeq` headers of the request. What a handler adds behind them competes for what is
left.

## Main results

* `Spook.addHeaders_takes` — headers added one after another.
* `Spook.rtspCreateReply_takes` — what a created reply holds, and the space that is left.
-/

namespace Spook

/-- A request that was parsed keeps the invariant of messages. -/
theorem wf_of_parsed {b : Bytes} {m : Pmsg} {r : ℤ} (hp : (received b).parsePmsg = .ok (m, r)) :
    m.Wf := by
  obtain ⟨m', r', hp', hwf⟩ | ⟨hp', -⟩ := Pmsg.parsePmsg_spec (m := received b) le_rfl
  · rw [hp] at hp'
    cases hp'
    exact hwf
  · rw [hp] at hp'
    cases hp'

/-- Headers that are added one after another. -/
theorem addHeaders_takes {m : Pmsg} (hwf : m.Wf) (hs : List Header) :
    ∃ m', m.addHeaders hs = .ok m' ∧ m.Takes (hs.map fun h => (cstr h.1, cstr h.2)) m' := by
  induction hs generalizing m with
  | nil => exact ⟨m, rfl, .nil hwf⟩
  | cons h hs ih =>
    obtain ⟨m₁, r, ha, ht⟩ := Pmsg.addHeader_takes hwf h.1 h.2
    obtain ⟨m', hm, ht'⟩ := ih ht.wf
    refine ⟨m', ?_, ht.append ht'⟩
    rw [Pmsg.addHeaders, ha, ok_bind]
    exact hm

/-- The space of a reply behind the words of its status line. -/
def replySpace (reason : Bytes) : Space := ⟨512, 10 + reason.length, 0⟩

/-- **A created reply** has the code that was asked for, and the `CSeq` headers of the request as
far as they find space. -/
theorem rtspCreateReply_takes {req : Pmsg} (hreq : req.Wf) (code : ℕ) {reason : Bytes}
    (hnul : NulFree reason) (hlen : reason.length ≤ 500) :
    ∃ m, rtspCreateReply req code reason = .ok m ∧ m.Wf ∧ m.slFst = .code code ∧
      m.space = (replySpace reason).after (Pmsg.named (str "CSeq") req.headers) ∧
      m.headers = (replySpace reason).kept (Pmsg.named (str "CSeq") req.headers) := by
  have hproto : cstr (str "RTSP/1.0") = str "RTSP/1.0" := cstr_of_nulFree (by decide +kernel)
  have hreason : cstr reason = reason := cstr_of_nulFree hnul
  have hplen : (str "RTSP/1.0").length = 8 := rfl
  unfold rtspCreateReply
  rw [Pmsg.addPmsgString_fits (by rw [hproto, hplen, Pmsg.newPmsg]; dsimp only; omega)]
  dsimp only
  rw [Pmsg.addPmsgString_fits (by rw [hproto, hreason, hplen, Pmsg.newPmsg]; dsimp only; omega)]
  dsimp only [Pmsg.newPmsg]
  rw [hproto, hreason, hplen]
  generalize hbase : Pmsg.mk _ _ _ _ _ _ _ _ _ = base
  have hspace : base.space = replySpace reason := by
    rw [← hbase, replySpace, Pmsg.space, Space.mk.injEq]
    exact ⟨rfl, by dsimp only; omega, rfl⟩
  have hnone : base.headers = [] := by
    rw [← hbase]
    rfl
  have hcode : base.slFst = .code code := by
    rw [← hbase]
  have hwf : base.Wf := by
    rw [← hbase]
    exact Pmsg.wfBelow_zero rfl (by dsimp only; omega) le_rfl
  obtain ⟨m, c, hm, ht⟩ := Pmsg.copyHeaders_takes hwf hreq (str "CSeq")
  have hstored := ht.headers
  rw [hnone, hspace, List.nil_append] at hstored
  exact ⟨m, by rw [hm]; rfl, ht.wf, ht.words.slFst.trans hcode, hspace ▸ ht.space, hstored⟩

end Spook
