import Logline.Proofs.Pattern.Completeness
import Logline.Proofs.Pattern.Soundness
/-!
Reading and printing.  A text is read as some nodes exactly if they are normal
and it spells them, and the nodes that come back from their printed text are
the normal ones.
-/
namespace Logline.Pattern

/-- The reader accepts the spellings of normal nodes, as these nodes, and
nothing else. -/
theorem read_eq_ok_iff (t : Text) (nodes : List Node) :
    read t = .ok nodes ↔ Normal nodes ∧ Spells none nodes t := by
  constructor
  · exact read_sound
  · rintro ⟨hnormal, hspells⟩
    exact read_complete hnormal hspells

/-- Normal nodes, and no others, come back from their printed text; what any
text is read as is normal, and so comes back. -/
theorem read_text_iff_normal (nodes : List Node) :
    (read (text nodes) = .ok nodes ↔ Normal nodes) ∧
      ∀ t, read t = .ok nodes →
        Normal nodes ∧ read (text nodes) = .ok nodes := by
  have hback : Normal nodes → read (text nodes) = .ok nodes :=
    fun hnormal => read_complete hnormal (spells_text nodes)
  refine ⟨⟨fun hread => (read_sound hread).1, hback⟩, ?_⟩
  intro t hread
  have hnormal := (read_sound hread).1
  exact ⟨hnormal, hback hnormal⟩

namespace RoundTripWitness

/-- A text that writes an empty slot without need, and its slots in the other
order than they are printed. -/
def source : Text :=
  "a#m\x7bx,\x7b,\x7d\x7d(#n())#_\x7b\x7d()(b)".toList

def nodes : List Node :=
  [.literal ['a'],
    .converter ['m'] [['x'], ['\x7b', ',', '\x7d']] [.converter ['n'] [] []],
    .converter ['_'] [] [], .literal ['(', 'b', ')']]

theorem read_text_iff_normal_sample :
    read source = .ok nodes ∧ Normal nodes ∧ read (text nodes) = .ok nodes :=
  ⟨rfl, (read_text_iff_normal nodes).2 source rfl⟩

end RoundTripWitness

end Logline.Pattern
