import KzgBn254.Polynomial
import KzgBn254.Domain
import KzgBn254.Codec
import KzgBn254.FieldCodec
import KzgBn254.Blob
import KzgBn254.Lifecycle
import KzgBn254.Refinement
import KzgBn254.Runs
import KzgBn254.Encoding
