import StorageClient.Proofs.Screen.Scrolling
import StorageClient.Proofs.Screen.Windows
import StorageClient.Proofs.Text.Wrapping

/-!
What of a text the read-only view can show. Scrolling brings each of its lines into the frame, but a
line is cut after so many characters and then to as many columns, and it is drawn in a few columns
more. So what comes behind wide characters or behind emoji can be missing, and nothing else is.
-/

namespace StorageClient

namespace Text

/-- What is left of a line before it is cut. -/
def visible (t : Text) : Text := t.filter fun c => !isControl c

end Text

namespace Reader
open Text

variable {r : Reader} {sent : Text} {area : Rect}

/-- A character that fits stands in its column of its row. -/
theorem symbol_strokes (hfit : r.geometry.FitsIn area) (path : Text) {lines : List Draw.Line}
    {i : Nat} (hi : i + 6 < r.geometry.window.height) {style : Style} {t u : Text} {c : Char}
    (hl : lines[i]? = some ⟨t ++ c :: u, style⟩)
    (hvisible : ∀ d ∈ t ++ c :: u, isControl d = false) (hc : 0 < width c)
    (hle : columns t + columns (c :: u.takeWhile isMark) ≤ r.geometry.window.width - 2) :
    (((Grid.blank area).draw (r.strokes path area lines)).get
      (r.geometry.window.x + 2 + columns t) (r.geometry.window.y + 2 + i)).symbol =
        c :: u.takeWhile isMark := by
  have hheight : r.geometry.window.height - 6 + 2 ≤ r.geometry.window.height := by omega
  have hbelow : ∀ k ∈ footer area r.geometry.window, r.geometry.window.y + 2 + i < k.y := by
    intro k hk
    have := footer_below hk
    omega
  unfold strokes
  rw [hfit.inter_eq]
  exact Grid.symbol_draw_paragraph rfl (hfit.text_contains hheight) (hfit.text_onScreen hheight)
    hbelow (by dsimp only; omega) hl hvisible hc hle

end Reader

end StorageClient
