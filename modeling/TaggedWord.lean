import TaggedWord.Collection.Sorting
import TaggedWord.Collection.WordSet
import TaggedWord.JsonText.Reader
import TaggedWord.JsonText.Writer
import TaggedWord.Proofs.Comparison
import TaggedWord.Proofs.ExpressionTags
import TaggedWord.Proofs.JsonMaps
import TaggedWord.Proofs.Truncation
import TaggedWord.Value
import TaggedWord.Proofs.EqualOperands
import TaggedWord.Proofs.SetContents
import TaggedWord.Proofs.ExactIntegers
import TaggedWord.Proofs.NumberRoundTrip
import TaggedWord.Proofs.IntegerForms
import TaggedWord.Proofs.Products
import TaggedWord.Proofs.RecursiveReading
import TaggedWord.Proofs.Masks
import TaggedWord.Proofs.NearestNumber
import TaggedWord.Proofs.Shifts
import TaggedWord.Proofs.NumberComparison
import TaggedWord.Proofs.SafeIntegers
import TaggedWord.Proofs.SortedWords
import TaggedWord.Proofs.Fields
import TaggedWord.Proofs.RefusedTexts
import TaggedWord.Proofs.DigitLoop
