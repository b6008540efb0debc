import ArmaGen.Text.Words

/-!
# The library of helpers

The header file that emitted programs with functions of the namespace `m2cpp` include.
-/

namespace ArmaGen

def libraryLines : List String := [
  "#ifndef MCONVERT_H",
  "#define MCONVERT_H",
  "",
  "#include <armadillo>",
  "using namespace arma;",
  "",
  "namespace m2cpp \x7b",
  "",
  "\t",
  "  template<typename eT> ",
  "  inline arma::Col<eT> scol(eT a) \x7b",
  "    return arma::Col<eT>(&a, 1, true);",
  "  \x7d",
  "",
  "  template<typename eT>",
  "  inline arma::Row<eT> srow(eT a) \x7b",
  "    return arma::Row<eT>(&a, 1, true);",
  "  \x7d",
  "",
  "  template<typename eT>",
  "  inline arma::Mat<eT> smat(eT a) \x7b",
  "    return arma::Mat<eT>(&a, 1, 1, true);",
  "  \x7d",
  "",
  "",
  "  inline arma::uvec span(int a, int b) \x7b",
  "\t  arma::uvec s((arma::uword)0);",
  "\t  int n = b - a;",
  "\t  if (n < 0) return s;",
  "\t  s.set_size(n + 1);",
  "\t  for (int ii = 0; ii <= n; ii++)",
  "\t\t  s(ii) = ii + a;",
  "\t  return s;",
  "  \x7d",
  "",
  "  template <typename T>",
  "  inline T span(int a, int b) \x7b",
  "\t  T s((arma::uword)0);",
  "\t  int n = b - a;",
  "\t  if (n < 0) return s;",
  "\t  s.set_size(n + 1);",
  "\t  for (int ii = 0; ii <= n; ii++)",
  "\t\t  s(ii) = ii + a;",
  "\t  return s;",
  "  \x7d",
  "",
  "",
  "  template <typename T>",
  "  inline T span(int a, int step, int b)",
  "  \x7b",
  "\t  T s;",
  "\t  int n = (b - a + step) / step;",
  "\t  if (n < 0)",
  "\t  \x7b",
  "\t\t  return s;",
  "\t  \x7d",
  "\t  s.set_size(n);",
  "",
  "\t  for (int ii = 0; ii < n; ii++)",
  "\t  \x7b",
  "\t\t  s(ii) = step * ii + a;",
  "\t  \x7d",
  "",
  "\t  return s;",
  "   \x7d",
  "  ",
  "",
  "   template <typename T>",
  "   inline arma::cx_mat fft(arma::Mat<typename T::elem_type> X, int dim)",
  "   \x7b",
  "\t   if (dim == 1)",
  "\t\t   return arma::fft(X);",
  "\t   else",
  "\t\t   return arma::strans(arma::fft(arma::strans(X)));",
  "",
  "   \x7d",
  "",
  "   template <typename T>",
  "   inline arma::cx_mat fft(arma::Mat<typename T::elem_type> X, int n, int dim)",
  "   \x7b",
  "\t   if (dim == 1)",
  "\t\t   return arma::fft(X, n);",
  "\t   else",
  "\t\t   return arma::strans(arma::fft(arma::strans(X), n));",
  "",
  "   \x7d",
  "",
  "",
  "\ttemplate <typename T>",
  "\tinline arma::Mat<typename T::elem_type> ifft(arma::cx_mat X, int dim)",
  "\t\x7b",
  "\t\tif (dim == 1)",
  "\t\t\tX = arma::ifft(X);",
  "\t\telse",
  "\t\t\tX = arma::strans(arma::ifft(arma::strans(X)));",
  "\t\treturn X;",
  "\t\x7d",
  "",
  "",
  "   template<typename eT>",
  "   inline typename arma::enable_if2<arma::is_real<eT>::value," ++
    " arma::Col<eT> >::result fspan(eT a, eT step, eT b) \x7b",
  "      arma::Col<eT> s;",
  "      int n = int((b - a) / step);",
  "      if (n < 0) return s;",
  "",
  "      s.set_size(n + 1);",
  "      for (int ii = 0; ii <= n; ii++)",
  "        s(ii) = step * ii + a;",
  "      return s;",
  "  \x7d",
  "",
  "",
  "  inline int nextpow2(int n) \x7b",
  "    n = abs(n);",
  "    int p = 0;",
  "    int tmp = 1;",
  "    while (tmp < n)",
  "\t\x7b",
  "      tmp *= 2;",
  "      p++;",
  "    \x7d",
  "    return p;",
  "  \x7d",
  "",
  "",
  "  template<typename T1, typename T2>",
  "  inline  arma::Mat<typename T1::elem_type> hankel(const T1& c_, const T2& r_) \x7b",
  "",
  "\ttypedef typename T1::elem_type eT;",
  "",
  "    int nc = r_.n_elem;",
  "    int nr = c_.n_elem;",
  "",
  "    const arma::Col<eT> c((eT*)c_.memptr(), nr, 0);",
  "    const arma::Row<eT> r((eT*)r_.memptr(), nc, 0);",
  "",
  "    if (r[0] != c[0]) \x7b",
  "      //(\"hankel: differing diagonal element. Using the column one\");",
  "    \x7d",
  "",
  "    arma::Mat<typename T1::elem_type> retval(nr, nc);",
  "",
  "    for (int i = 1; i <= std::min(nr, nc); i++) \x7b",
  "      retval.submat(1 - 1, i - 1, nr - i + 1 - 1, i - 1) = c.rows(i - 1, nr",
  "        - 1);",
  "    \x7d",
  "    int tmp = 1;",
  "    if (nc <= nr) \x7b",
  "      tmp = nr - nc + 2;",
  "    \x7d",
  "",
  "    for (int i = nr; i >= tmp; i--) \x7b",
  "      retval.submat(i - 1, 2 + nr - i - 1, i - 1, nc - 1) = r.cols(2",
  "        - 1, nc - nr + i - 1);",
  "    \x7d",
  "    return retval;",
  "  \x7d",
  "",
  "  template<typename T1>",
  "  inline arma::uword length(const T1& A) \x7b",
  "    return A.n_elem;",
  "  \x7d",
  "",
  "  template<typename T>",
  "  inline arma::Mat <typename T::elem_type> convmtx(const T& v, int m) \x7b",
  "",
  "\t  arma::Mat<typename T::elem_type> out = zeros(v.n_elem + m - 1, m);",
  "\t  arma::Col<typename T::elem_type> aux((typename T::elem_type*)v.memptr(), v.n_elem);",
  "",
  "\t  for (int ii = 0; ii < m; ii++) \x7b",
  "\t\t  out.submat(ii, ii, ii + v.n_elem - 1, ii) = v;",
  "\t  \x7d",
  "",
  "\t  if (v.n_rows == 1)",
  "\t\t  out = out.t();",
  "\t  return out;",
  "  \x7d",
  "",
  "  template <typename eT>",
  "\t  inline typename arma::enable_if2< arma::is_real<typename" ++
    " eT::elem_type>::value, typename arma::Mat<typename eT::elem_type> >::result",
  "\t  conv2(const arma::Mat<typename eT::elem_type>& A, const" ++
    " arma::Mat<typename eT::elem_type>& B) \x7b",
  "\t  uword n = A.n_rows + B.n_rows - 1;",
  "\t  uword m = A.n_rows + B.n_rows - 1;",
  "",
  "\t  arma::Mat<typename eT::elem_type> out =" ++
    " arma::real(arma::ifft2(fft2(A, n, m) % fft2(B, n, m)));",
  "\t  return out;",
  "  \x7d",
  "",
  "  template <typename eT, typename fT>",
  "\t  inline typename arma::enable_if2 < arma::is_complex<typename" ++
    " eT::elem_type>::value || arma::is_complex<typename fT::elem_type>::value,",
  "\t  arma::Mat<typename std::complex< typename arma::get_pod_type<eT>::result > > >::result",
  "\t  conv2(const arma::Mat<typename eT::elem_type>& A, const" ++
    " arma::Mat<typename fT::elem_type>& B) \x7b",
  "\t  uword n = A.n_rows + B.n_rows - 1;",
  "\t  uword m = A.n_rows + B.n_rows - 1;",
  "",
  "\t  arma::Mat<typename eT::elem_type> out = arma::ifft2(fft2(A, n, m) % fft2(B, n, m));",
  "\t  return out;",
  "  \x7d",
  "",
  "",
  "\x7d",
  "",
  "",
  "#endif",
  ""
]

def library : String :=
  joinWith "\n" libraryLines

end ArmaGen
