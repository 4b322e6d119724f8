import Mathlib.Data.List.TakeWhile
import PushFitness.Proofs.Program.Words

/-!
# Loosely written integers

What a setting may be written as to be an integer is said by its characters (`IntegerText`):
margins, a sign, and digits of any script with single underscores between them, not too
many of them. The reader takes the margins off first. Neither a sign nor a digit is one, so no
more is taken off than that, and what is read is exactly this (`looseInteger?_eq_some_iff`).
-/

namespace PushFitness.Text

/-! ## Margins -/

section Strip

variable {class? : Char → Bool} {front body back : List Char}

theorem dropWhile_append (hfront : ∀ c ∈ front, class? c = true)
    (hhead : ∀ c ∈ body.head?, class? c = false) : (front ++ body).dropWhile class? = body := by
  rw [List.dropWhile_append_of_pos hfront]
  cases body with
  | nil => rfl
  | cons c cs => exact List.dropWhile_cons_of_neg (by rw [hhead c rfl]; exact Bool.false_ne_true)

/-- What is stripped off are characters of the class, in front and behind. -/
theorem exists_strip (class? : Char → Bool) (cs : List Char) : ∃ front back,
    cs = front ++ (strip class? cs ++ back) ∧ (∀ c ∈ front, class? c = true) ∧
      ∀ c ∈ back, class? c = true := by
  have hfront := List.takeWhile_append_dropWhile (p := class?) (l := cs)
  have hback := List.takeWhile_append_dropWhile (p := class?) (l := (cs.dropWhile class?).reverse)
  refine ⟨cs.takeWhile class?, ((cs.dropWhile class?).reverse.takeWhile class?).reverse, ?_,
    fun c hc => List.mem_takeWhile_imp hc, fun c hc => ?_⟩
  · rw [strip, ← List.reverse_append, hback, List.reverse_reverse, hfront]
  · exact List.mem_takeWhile_imp (List.mem_reverse.mp hc)

/-- No more is stripped off if what is left has other characters at both of its ends. -/
theorem strip_append (hfront : ∀ c ∈ front, class? c = true) (hback : ∀ c ∈ back, class? c = true)
    (hne : body ≠ []) (hhead : ∀ c ∈ body.head?, class? c = false)
    (hlast : ∀ c ∈ body.getLast?, class? c = false) :
    strip class? (front ++ (body ++ back)) = body := by
  have hhead' : ∀ c ∈ (body ++ back).head?, class? c = false := by
    obtain ⟨c, cs, rfl⟩ := List.exists_cons_of_ne_nil hne
    exact hhead
  have hlast' : ∀ c ∈ body.reverse.head?, class? c = false := by
    rwa [List.head?_reverse]
  rw [strip, dropWhile_append hfront hhead', List.reverse_append,
    dropWhile_append (fun c hc => hback c (List.mem_reverse.mp hc)) hlast', List.reverse_reverse]

end Strip

theorem isMargin_of_isDigit {c : Char} (h : isDigit c = true) : isMargin c = false := by
  have hruns : ∀ z ∈ digitZeros, ∀ i < 10, isMargin (Char.ofNat (z + i)) = false := by
    decide +kernel
  obtain ⟨d, hd⟩ := Option.isSome_iff_exists.mp h
  obtain ⟨z, hzero, rfl⟩ := Option.map_eq_some_iff.mp hd
  have hrun := List.find?_some hzero
  simp only [Bool.and_eq_true, decide_eq_true_eq] at hrun
  have hc := hruns z (List.mem_of_find?_eq_some hzero) (c.toNat - z) (by omega)
  rwa [Nat.add_sub_cancel' hrun.1, Char.ofNat_toNat] at hc

/-! ## Digits with underscores -/

/-- Digits with their values. Between two of them there may be one underscore. -/
inductive SeparatedDigits : List Char → List Nat → Prop
  | last {c : Char} {d : Nat} (h : digitValue? c = some d) : SeparatedDigits [c] [d]
  | digit {c : Char} {d : Nat} {cs : List Char} {ds : List Nat} (h : digitValue? c = some d)
      (hmore : SeparatedDigits cs ds) : SeparatedDigits (c :: cs) (d :: ds)
  | underscore {c : Char} {d : Nat} {cs : List Char} {ds : List Nat} (h : digitValue? c = some d)
      (hmore : SeparatedDigits cs ds) : SeparatedDigits (c :: '_' :: cs) (d :: ds)

namespace SeparatedDigits

variable {cs : List Char} {ds : List Nat}

theorem exists_cons (h : SeparatedDigits cs ds) : ∃ c rest, cs = c :: rest ∧ isDigit c = true := by
  cases h with
  | last h | digit h _ | underscore h _ =>
      exact ⟨_, _, rfl, by rw [isDigit, h, Option.isSome_some]⟩

theorem isDigit_getLast (h : SeparatedDigits cs ds) : ∀ c ∈ cs.getLast?, isDigit c = true := by
  induction h with
  | last h =>
      intro x hx
      obtain rfl := Option.some.inj (List.getLast?_singleton.symm.trans hx)
      rw [isDigit, h, Option.isSome_some]
  | digit _ hmore ih | underscore _ hmore ih =>
      obtain ⟨c, rest, rfl, -⟩ := hmore.exists_cons
      exact ih

theorem of_separatedDigits? (h : separatedDigits? cs = some ds) : SeparatedDigits cs ds := by
  fun_induction separatedDigits? cs generalizing ds with
  | case1 => cases h
  | case2 c =>
      obtain ⟨d, hd, rfl⟩ := Option.map_eq_some_iff.mp h
      exact .last hd
  | case3 c cs ih =>
      obtain ⟨d, hd, h⟩ := Option.bind_eq_some_iff.mp h
      obtain ⟨rest, hrest, h⟩ := Option.bind_eq_some_iff.mp h
      obtain rfl := Option.some.inj h
      exact .underscore hd (ih hrest)
  | case4 c cs _ _ ih =>
      obtain ⟨d, hd, h⟩ := Option.bind_eq_some_iff.mp h
      obtain ⟨rest, hrest, h⟩ := Option.bind_eq_some_iff.mp h
      obtain rfl := Option.some.inj h
      exact .digit hd (ih hrest)

theorem separatedDigits?_eq (h : SeparatedDigits cs ds) : separatedDigits? cs = some ds := by
  induction h with
  | last h => rw [separatedDigits?, h]; rfl
  | underscore h _ ih => rw [separatedDigits?, h, ih]; rfl
  | digit h hmore ih =>
      obtain ⟨c, rest, rfl, hc⟩ := hmore.exists_cons
      have hne : c ≠ '_' := isDigit_ne hc (by decide +kernel)
      -- the reader looks for an underscore first, and no digit is one
      have hother : ∀ more, c :: rest = '_' :: more → False := fun more heq =>
        hne (List.cons.inj heq).1
      rw [separatedDigits?.eq_4 _ _ (by simp) hother, h, ih]
      rfl

end SeparatedDigits

/-! ## Integers -/

inductive Sign : List Char → Bool → Prop
  | none : Sign [] false
  | plus : Sign ['+'] false
  | minus : Sign ['-'] true

/-- A text that is an integer: margins, a sign and digits with underscores. -/
inductive IntegerText : List Char → Int → Prop
  | mk {front sign body back : List Char} {negative : Bool} {ds : List Nat}
      (hfront : ∀ c ∈ front, isMargin c = true) (hsign : Sign sign negative)
      (hbody : SeparatedDigits body ds) (hlength : ds.length ≤ maxIntegerDigits)
      (hback : ∀ c ∈ back, isMargin c = true) :
      IntegerText (front ++ (sign ++ body ++ back)) (signedValue negative ds)

theorem sign_takeSign (cs : List Char) :
    ∃ sign, cs = sign ++ (takeSign cs).2 ∧ Sign sign (takeSign cs).1 := by
  unfold takeSign
  split
  · exact ⟨['-'], rfl, .minus⟩
  · exact ⟨['+'], rfl, .plus⟩
  · exact ⟨[], rfl, .none⟩

theorem Sign.takeSign_append {sign body : List Char} {negative : Bool} {ds : List Nat}
    (h : Sign sign negative) (hbody : SeparatedDigits body ds) :
    takeSign (sign ++ body) = (negative, body) := by
  cases h with
  | none =>
      obtain ⟨c, rest, rfl, hc⟩ := hbody.exists_cons
      exact takeSign_of_digit hc rest
  | plus | minus => rfl

theorem looseInteger?_eq (cs : List Char) : looseInteger? cs =
    (separatedDigits? (takeSign (strip isMargin cs)).2).bind fun ds =>
      if ds.length ≤ maxIntegerDigits then some (signedValue (takeSign (strip isMargin cs)).1 ds)
      else none := rfl

theorem looseInteger?_eq_some_iff {cs : List Char} {n : Int} :
    looseInteger? cs = some n ↔ IntegerText cs n := by
  rw [looseInteger?_eq]
  constructor
  · intro h
    obtain ⟨ds, hds, h⟩ := Option.bind_eq_some_iff.mp h
    obtain ⟨hlength, hvalue⟩ := Option.ite_none_right_eq_some.mp h
    obtain rfl := Option.some.inj hvalue
    obtain ⟨front, back, hcs, hfront, hback⟩ := exists_strip isMargin cs
    obtain ⟨sign, hstrip, hsign⟩ := sign_takeSign (strip isMargin cs)
    have hmk := IntegerText.mk hfront hsign (.of_separatedDigits? hds) hlength hback
    rwa [← hstrip, ← hcs] at hmk
  · rintro @⟨front, sign, body, back, negative, ds, hfront, hsign, hbody, hlength, hback⟩
    -- in front stands the sign or a digit, and a digit is always the last character
    obtain ⟨c, rest, hcons, hc⟩ := hbody.exists_cons
    have hhead : ∀ x ∈ (sign ++ body).head?, isMargin x = false := by
      intro x hx
      rw [List.head?_append] at hx
      cases hsign with
      | none =>
          rw [hcons] at hx
          obtain rfl := Option.some.inj hx
          exact isMargin_of_isDigit hc
      | plus | minus =>
          obtain rfl := Option.some.inj hx
          rfl
    have hlast : ∀ x ∈ (sign ++ body).getLast?, isMargin x = false := by
      intro x hx
      rw [List.getLast?_append, Option.or_of_isSome (by simp [hcons])] at hx
      exact isMargin_of_isDigit (hbody.isDigit_getLast x hx)
    have hne : sign ++ body ≠ [] := by simp [hcons]
    rw [strip_append hfront hback hne hhead hlast, hsign.takeSign_append hbody,
      hbody.separatedDigits?_eq]
    exact if_pos hlength

end PushFitness.Text
