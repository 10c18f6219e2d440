import Mathlib.Algebra.Ring.Nat
import Mathlib.Data.List.Basic

/-!
# Collapsing runs of blanks

A reader that writes one blank for each run of blanks, and none for a run that is
already open when it starts. Starting inside a run therefore drops the leading
blanks. The laws relate a position of the written stream to the place in the read
text that wrote it, counted in units of an arbitrary positive symbol width.
-/

namespace Omnibus.Library.Collapse

section Reader

variable {Symbol : Type*} (isBlank : Symbol → Bool) (blank : Symbol)

/-- Only a blank inside an open run writes nothing. -/
def emits (run : Bool) (symbol : Symbol) : Bool := !(isBlank symbol && run)

def runAfter : Bool → List Symbol → Bool
  | run, [] => run
  | _, symbol :: rest => runAfter (isBlank symbol) rest

def collapse : Bool → List Symbol → List Symbol
  | _, [] => []
  | run, symbol :: rest =>
      if isBlank symbol then
        if run then collapse true rest else blank :: collapse true rest
      else symbol :: collapse false rest

theorem run_after_append (run : Bool) (left right : List Symbol) :
    runAfter isBlank run (left ++ right) = runAfter isBlank (runAfter isBlank run left) right := by
  induction left generalizing run with
  | nil => rfl
  | cons symbol rest induction => exact induction (isBlank symbol)

theorem collapse_append (run : Bool) (left right : List Symbol) :
    collapse isBlank blank run (left ++ right) =
      collapse isBlank blank run left ++
        collapse isBlank blank (runAfter isBlank run left) right := by
  induction left generalizing run with
  | nil => rfl
  | cons symbol rest induction =>
      simp only [List.cons_append, collapse, runAfter, induction]
      cases space : isBlank symbol <;> cases run <;> simp

theorem collapse_single (run : Bool) (symbol : Symbol) :
    collapse isBlank blank run [symbol] =
      if emits isBlank run symbol then [if isBlank symbol then blank else symbol] else [] := by
  cases space : isBlank symbol <;> cases run <;> simp [collapse, emits, space]

/-- The symbol written at the end of what `left` writes is the one `symbol` stands for. -/
theorem collapse_at_emission (run : Bool) (left right : List Symbol) (symbol : Symbol)
    (written : emits isBlank (runAfter isBlank run left) symbol = true) :
    (collapse isBlank blank run (left ++ symbol :: right))[
        (collapse isBlank blank run left).length]? =
      some (if isBlank symbol then blank else symbol) := by
  have split : left ++ symbol :: right = left ++ ([symbol] ++ right) := rfl
  rw [split, collapse_append, collapse_append, collapse_single, if_pos written]
  simp

theorem collapse_cons (run : Bool) (symbol : Symbol) (rest : List Symbol) :
    collapse isBlank blank run (symbol :: rest) =
      collapse isBlank blank run [symbol] ++ collapse isBlank blank (isBlank symbol) rest :=
  collapse_append isBlank blank run [symbol] rest

theorem collapse_single_length (run : Bool) (symbol : Symbol) :
    (collapse isBlank blank run [symbol]).length = if emits isBlank run symbol then 1 else 0 := by
  rw [collapse_single]
  split_ifs <;> rfl

theorem collapse_cons_length (run : Bool) (symbol : Symbol) (rest : List Symbol) :
    (collapse isBlank blank run (symbol :: rest)).length =
      (if emits isBlank run symbol then 1 else 0) +
        (collapse isBlank blank (isBlank symbol) rest).length := by
  rw [collapse_cons, List.length_append, collapse_single_length]

theorem exists_emission (run : Bool) (text : List Symbol) (position : Nat)
    (inside : position < (collapse isBlank blank run text).length) :
    ∃ left symbol right, text = left ++ symbol :: right ∧
      emits isBlank (runAfter isBlank run left) symbol = true ∧
      (collapse isBlank blank run left).length = position := by
  induction text generalizing run position with
  | nil => simp [collapse] at inside
  | cons symbol rest induction =>
      rw [collapse_cons, List.length_append] at inside
      have headLength := collapse_single_length isBlank blank run symbol
      by_cases here : position < (collapse isBlank blank run [symbol]).length
      · have written : emits isBlank run symbol = true := by
          by_contra quiet
          simp [headLength, quiet] at here
        rw [headLength, if_pos written] at here
        exact ⟨[], symbol, rest, rfl, written, by simp [collapse]; omega⟩
      · obtain ⟨left, found, right, parts, written, count⟩ :=
          induction (isBlank symbol) (position - (collapse isBlank blank run [symbol]).length)
            (by omega)
        refine ⟨symbol :: left, found, right, by rw [parts]; rfl, written, ?_⟩
        rw [collapse_cons, List.length_append, count]
        omega

theorem emits_of_not_blank (run : Bool) (symbol : Symbol) (visible : isBlank symbol = false) :
    emits isBlank run symbol = true := by
  simp [emits, visible]

theorem collapse_head_solid (text : List Symbol) (symbol : Symbol)
    (written : (collapse isBlank blank true text).head? = some symbol) :
    isBlank symbol = false := by
  induction text with
  | nil => simp [collapse] at written
  | cons first rest induction =>
      cases space : isBlank first with
      | true => exact induction (by simpa [collapse, space] using written)
      | false =>
          obtain rfl : first = symbol := by simpa [collapse, space] using written
          exact space

end Reader

section Width

variable {Symbol : Type*} (width : Symbol → Nat)

def extent (text : List Symbol) : Nat := (text.map width).sum

@[simp] theorem extent_nil : extent width ([] : List Symbol) = 0 := rfl

@[simp] theorem extent_cons (symbol : Symbol) (rest : List Symbol) :
    extent width (symbol :: rest) = width symbol + extent width rest := by
  simp [extent]

@[simp] theorem extent_append (left right : List Symbol) :
    extent width (left ++ right) = extent width left + extent width right := by
  simp [extent]

end Width

end Omnibus.Library.Collapse
