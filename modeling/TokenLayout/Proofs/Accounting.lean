import Mathlib.Algebra.GroupWithZero.Nat
import TokenLayout.Proofs.Faithful
import TokenLayout.Proofs.Influence

/-!
# What a length counts

The length of a tree is that of its texts and of all its brackets. Its flat text is longer by the
separators that groups put between their parts, and shorter by the brackets that are left out
(`Token.accounted`). A rendered text is longer than the flat one by its breaks, each a terminator
and the padding of a line (`Lines.length_build`).

Both hold of the tokens of a tree as often as they occur in it. `Session.Reached.length_accounted`
puts them together for the length that is read in a session, where it may come from the memo.
-/

namespace TokenLayout

namespace Token

/-- The number of characters in the brackets that a token leaves out. -/
def omitted : Token → Nat
  | bracket _ frame body => if frame.bare body then frame.length else 0
  | _ => 0

/-- The number of separators that a token puts between its parts. -/
def separators : Token → Nat
  | group _ true _ parts => parts.length - 1
  | _ => 0

/-- The length and the flat text of a tree are of the same size, but for the brackets that are left
out and the separators, of two characters each. -/
def Accounted (t : Token) : Prop :=
  ∃ n : Nat, t.length? = some (n : Int) ∧
    t.flat.length + (t.preorder.map omitted).sum = n + 2 * (t.preorder.map separators).sum

/-- The parts of a group, or those of its parts that come after the first. -/
theorem exists_lengths_of_accounted {parts : List Token} (h : ∀ part ∈ parts, part.Accounted)
    (commas first : Bool) : ∃ n : Nat, lengths? parts = some (n : Int) ∧
      (flats commas first parts).length + ((preorders parts).map omitted).sum =
        n + 2 * ((preorders parts).map separators).sum +
          2 * if commas then (if first then parts.length - 1 else parts.length) else 0 := by
  induction parts generalizing first with
  | nil => exact ⟨0, rfl, by cases commas <;> cases first <;> rfl⟩
  | cons part parts ih =>
    obtain ⟨m, hlength, hpart⟩ := h part (by simp)
    obtain ⟨n, hlengths, hparts⟩ := ih (fun p hp => h p (by simp [hp])) false
    refine ⟨m + n, by simp [lengths?, hlength, hlengths], ?_⟩
    have hseparator : separatorText.length = 2 := rfl
    simp only [flats, preorders, String.length_append, List.map_append, List.sum_append,
      List.length_cons]
    cases commas <;> cases first <;> simp [hseparator] at hparts ⊢ <;> omega

/-- Every tree that can be written is accounted for. -/
theorem accounted {t : Token} (h : t.Writable) : t.Accounted := by
  induction t using children_induction with
  | step t ih =>
    cases t with
    | leaf tag role text => exact ⟨text.length, rfl, by simp [flat, preorder, omitted, separators]⟩
    | group tag commas forced parts =>
      have hparts : ∀ part ∈ parts, part.Accounted := fun part hp => ih part hp (h.part part hp)
      obtain ⟨n, hlength, hflat⟩ := exists_lengths_of_accounted hparts commas true
      refine ⟨n, hlength, ?_⟩
      simp only [flat, preorder, List.map_cons, List.sum_cons]
      cases commas <;> simp [omitted, separators] at hflat ⊢ <;> omega
    | bracket tag frame body =>
      obtain ⟨n, hlength, hflat⟩ := ih body (List.mem_singleton_self body) h.body
      refine ⟨n + frame.length, by simp [length?, hlength], ?_⟩
      simp only [flat, preorder, List.map_cons, List.sum_cons, omitted, separators]
      split
      · omega
      · simp only [String.length_append, Frame.length]
        omega
    | blank tag => exact absurd h (not_writable_blank tag)
    | foreign tag length multiline => exact absurd h (not_writable_foreign tag length multiline)

end Token

/-- A text with its breaks is longer by a terminator and a padding for each of them. -/
theorem Lines.length_build (width : Nat) (terminator : String) (lines : Lines) :
    (lines.build width terminator).length = lines.flat.length +
      (lines.rest.map fun line => terminator.length + width * line.level).sum := by
  obtain ⟨head, rest⟩ := lines
  induction rest with
  | nil => simp [build, flat]
  | cons line rest ih =>
    have hpadding : (spaces (line.level * width)).length = width * line.level := by
      rw [Page.length_spaces, ← Int.natCast_mul, Int.toNat_natCast, Nat.mul_comm]
    simp only [build, flat, String.length_append, List.map_cons, String.join_cons, List.sum_cons,
      hpadding] at ih ⊢
    omega

/-- In every session that is reached, the length that is read of a tree differs from that of its
flat text by the separators, of two characters each, and by the brackets that are left out. Under
any settings its rendered text is longer than the flat one by a terminator and the padding of a line
for each of its breaks. -/
theorem Session.Reached.length_accounted {session : Session} (h : session.Reached fun _ => True)
    {id : TokenId} {t : Token} (ht : session.store.tree? id = some t) (hw : t.Writable) :
    (∃ n : Int, ((Build.length id).run session.store).1 = .ok n ∧
      (t.flat.length : Int) + (t.walk.map Token.omitted).sum =
        n + 2 * (t.walk.map Token.separators).sum) ∧
    ∀ settings : Settings,
      let lines := t.lines settings.toThresholds session.store.memo
      ∃ rendering, ((Build.render settings (.token id)).run session.store).1 = .ok rendering ∧
        rendering.text = lines.build settings.indentWidth settings.newline ∧
        rendering.text.length = t.flat.length +
          (lines.rest.map fun line =>
            settings.newline.length + settings.indentWidth * line.level).sum := by
  have hsound : session.store.Sound fun _ => True :=
    h.invariant (Store.sound_unmeasured {}) fun _ _ hc hs => hc.sound hs
  refine ⟨?_, fun settings => ?_⟩
  · obtain ⟨n, hlength, hflat⟩ := Token.accounted hw
    refine ⟨n, ?_, ?_⟩
    · rw [Build.result_length {} ht, hsound.lengthIn?_eq (Store.standsIn_of_tree? ht).2, hlength]
      rfl
    · rw [Token.walk_eq_preorder]
      exact_mod_cast hflat
  · refine ⟨_, Build.result_render_of_writable settings ht hw, rfl, ?_⟩
    rw [← Token.flat_lines hw settings.toThresholds session.store.memo]
    exact Lines.length_build _ _ _

/-- A call with the same argument twice, which leaves out its brackets, measured before it is
rendered. -/
def Script.repeated : Script :=
  [.bind "p" (.prefixed "-" (.datum (.text "x"))),
    .bind "c" (.call (.datum (.text "f")) (.each [.named "p", .named "p"])),
    .measure (.named "c")]

theorem Session.Reached.length_accounted_repeated :
    let session := ((Step.runAll Script.repeated).run {}).2
    let settings : Settings := { maxChildren := 1, newline := "\n" }
    (session.Reached fun _ => True) ∧ ∃ t, session.store.tree? 7 = some t ∧ t.Writable ∧
      t.flat = "f(-x, -x)" ∧ (t.walk.map Token.omitted).sum = 4 ∧
      (t.walk.map Token.separators).sum = 1 ∧
      (∃ n : Int, ((Build.length 7).run session.store).1 = .ok n ∧ 9 + 4 = n + 2 * 1) ∧
      ∃ rendering, ((Build.render settings (.token 7)).run session.store).1 = .ok rendering ∧
        rendering.text.length = 9 +
          ((t.lines settings.toThresholds session.store.memo).rest.map fun line =>
            1 + 3 * line.level).sum := by
  intro session settings
  have hreached : session.Reached fun _ => True :=
    .runAll (.start trivial) (by simp [Script.repeated, Step.AllPlain, Step.Plain])
  have hfound : (session.store.tree? 7).map (fun t => (t.flat, decide t.Writable,
      (t.preorder.map Token.omitted).sum, (t.preorder.map Token.separators).sum)) =
        some ("f(-x, -x)", true, 4, 1) := by
    decide +kernel
  obtain ⟨t, ht, heq⟩ := Option.map_eq_some_iff.1 hfound
  simp only [Prod.mk.injEq, decide_eq_true_eq, ← Token.walk_eq_preorder] at heq
  obtain ⟨hflat, hw, homitted, hseparators⟩ := heq
  obtain ⟨hlength, hrender⟩ := hreached.length_accounted ht hw
  rw [hflat, homitted, hseparators] at hlength
  obtain ⟨rendering, hok, -, htext⟩ := hrender settings
  have hsizes : "f(-x, -x)".length = 9 ∧ settings.newline.length = 1 := by decide
  simp only [hflat, hsizes] at htext
  exact ⟨hreached, t, ht, hw, hflat, homitted, hseparators, hlength, rendering, hok, htext⟩

end TokenLayout
